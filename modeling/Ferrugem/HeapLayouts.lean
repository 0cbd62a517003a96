import Ferrugem.FirstFitFrames
import Ferrugem.SlabAllocator

/-!
# The kernel heap and its layouts

`kernel/src/memory/heap.rs`. `KernelHeap` asks the slab allocator for the larger
of the size and the alignment. A block of a class is as aligned as it is long,
and pages are only as aligned as pages are.
-/

namespace Ferrugem.HeapLayouts

open Ferrugem.FrameBitmapModel Ferrugem.FrameOwnership Ferrugem.FirstFitFrames
open Ferrugem.SlabAllocator LinkedBlocks

set_option autoImplicit false

/-- `core::alloc::Layout`: the alignment is a power of two, and the size rounded
up to it is at most `isize::MAX`. -/
structure Layout where
  size : Nat
  align : Nat
  power : align.isPowerOfTwo
  fits : size + align ≤ 2 ^ 63

def Layout.request (layout : Layout) : Nat := max layout.size layout.align

/-- `HEAP_USED` and `HEAP_ALLOCS` with the allocator behind them. -/
structure Heap (Store : Type) where
  slab : Slab Store
  used : Nat
  allocs : Nat

section

variable {Store : Type} (source : PageSource Store)

def alloc (heap : Heap Store) (layout : Layout) : Heap Store × Nat :=
  let (slab, ptr) := SlabAllocator.alloc source heap.slab layout.request
  if ptr = 0 then ({ heap with slab := slab }, ptr)
  else
    ({ slab := slab
       used := (heap.used + layout.request) % 2 ^ 64
       allocs := (heap.allocs + 1) % 2 ^ 64 }, ptr)

def dealloc (heap : Heap Store) (ptr : Nat) (layout : Layout) : Heap Store where
  slab := SlabAllocator.dealloc source heap.slab ptr layout.request
  used := heap.used - layout.request
  allocs := heap.allocs - 1

structure LayoutGrant where
  ptr : Nat
  layout : Layout

def LayoutGrant.toGrant (grant : LayoutGrant) : Grant where
  ptr := grant.ptr
  size := grant.layout.request

structure HeapHistory (Store : Type) where
  heap : Heap Store
  outstanding : List LayoutGrant

inductive HeapAction where
  | alloc (layout : Layout)
  | dealloc (position : Nat)
  | write (position offset : Nat) (bytes : List (BitVec 8))

/-- Owners release blocks with their layout and write inside them. -/
def HeapHistory.step (history : HeapHistory Store) : HeapAction → HeapHistory Store
  | .alloc layout =>
      let (heap, ptr) := HeapLayouts.alloc source history.heap layout
      if ptr = 0 then { history with heap := heap }
      else { heap := heap, outstanding := { ptr := ptr, layout := layout } :: history.outstanding }
  | .dealloc position =>
      match history.outstanding[position]? with
      | some grant =>
          { heap := HeapLayouts.dealloc source history.heap grant.ptr grant.layout
            outstanding := history.outstanding.eraseIdx position }
      | none => history
  | .write position offset bytes =>
      match history.outstanding[position]? with
      | some grant =>
          if offset + bytes.length ≤ blockLength grant.layout.request then
            { history with
              heap :=
                { history.heap with
                  slab :=
                    { history.heap.slab with
                      memory :=
                        history.heap.slab.memory.storeBytes (grant.ptr + offset) bytes } } }
          else history
      | none => history

/-- Every sequence of calls and writes after `memory::init`. -/
def heapSystem (memory : WordMemory) (store : Store) :
    EventSystem (HeapHistory Store) HeapAction Unit where
  init :=
    { heap :=
        { slab := { memory := memory, heads := fun _ => 0, store := store }
          used := 0
          allocs := 0 }
      outstanding := [] }
  step := fun history action => (history.step source action, none)

def HeapHistory.below (history : HeapHistory Store) : History Store where
  slab := history.heap.slab
  outstanding := history.outstanding.map LayoutGrant.toGrant

def HeapAction.below : HeapAction → Action
  | .alloc layout => .alloc layout.request
  | .dealloc position => .dealloc position
  | .write position offset bytes => .write position offset bytes

theorem alloc_slab (heap : Heap Store) (layout : Layout) :
    ((alloc source heap layout).1.slab, (alloc source heap layout).2) =
      SlabAllocator.alloc source heap.slab layout.request := by
  unfold alloc
  dsimp only
  split_ifs <;> rfl

theorem step_below (history : HeapHistory Store) (action : HeapAction) :
    (history.step source action).below = history.below.step source action.below := by
  cases action with
  | alloc layout =>
      have same := alloc_slab source history.heap layout
      unfold HeapHistory.step HeapAction.below History.step HeapHistory.below
      dsimp only
      rw [← same]
      dsimp only
      split_ifs <;> rfl
  | dealloc position =>
      unfold HeapHistory.step HeapAction.below History.step HeapHistory.below
      dsimp only
      rw [List.getElem?_map]
      cases history.outstanding[position]? with
      | none => rfl
      | some grant =>
          simp only [Option.map_some, List.eraseIdx_map]
          rfl
  | write position offset bytes =>
      unfold HeapHistory.step HeapAction.below History.step HeapHistory.below
      dsimp only
      rw [List.getElem?_map]
      cases history.outstanding[position]? with
      | none => rfl
      | some grant =>
          simp only [Option.map_some, LayoutGrant.toGrant]
          split_ifs <;> rfl

theorem request_fits (layout : Layout) : layout.request + 4095 < 2 ^ 64 := by
  have fits := layout.fits
  unfold Layout.request
  omega

theorem heap_kept (memory : WordMemory) (store : Store) (actions : List HeapAction) :
    ∃ free, Kept source
      ((heapSystem source memory store).runFrom (heapSystem source memory store).init
        actions).below free := by
  apply EventSystem.run_keeps fun history : HeapHistory Store =>
    ∃ free, Kept source history.below free
  · rintro history action ⟨free, kept⟩
    have fits : SizeFits action.below := by
      cases action with
      | alloc layout => exact request_fits layout
      | dealloc => trivial
      | write => trivial
    change ∃ free, Kept source (history.step source action).below free
    rw [step_below]
    exact kept_step kept fits
  · exact ⟨_, kept_init memory store⟩

end

inductive Origin where
  | ofClass (idx : SlabAllocator.Class)
  | pages (count : Nat)

/-- What `class_index` and the sum for the pages say about the layout. -/
def Layout.origin (layout : Layout) : Origin :=
  match classIndex (max layout.request 8) with
  | some idx => .ofClass idx
  | none => .pages (pagesFor (max layout.request 8))

section

variable {Store : Type} (source : PageSource Store)

/-- The free blocks of every class, in the order of its list. -/
def Lists (slab : Slab Store) (free : SlabAllocator.Class → List Nat) : Prop :=
  ∀ idx, Chain slab.memory (slab.heads idx) (free idx)

/-- The block was the first of its class, which may have grown by a page, or the
pages come from the frame allocator. -/
inductive Taken (before after : Slab Store) (free : SlabAllocator.Class → List Nat) (ptr : Nat) :
    Origin → Prop where
  | ofClass {idx : SlabAllocator.Class} {fresh rest : List Nat}
      (new : fresh = [] ∨ ∃ address store,
        source.alloc before.store slabPages = some (address, store) ∧
          fresh = runBlocks address (classSize idx) (slabSize / classSize idx))
      (list : fresh ++ free idx = ptr :: rest)
      (lists : Lists after (Function.update free idx rest)) :
      Taken before after free ptr (.ofClass idx)
  | pages {count : Nat} (allocated : source.alloc before.store count = some (ptr, after.store))
      (lists : Lists after free) : Taken before after free ptr (.pages count)

inductive Returned (before after : Slab Store) (free : SlabAllocator.Class → List Nat) (ptr : Nat) :
    Origin → Prop where
  | ofClass {idx : SlabAllocator.Class}
      (lists : Lists after (Function.update free idx (ptr :: free idx)))
      (store : after.store = before.store) : Returned before after free ptr (.ofClass idx)
  | pages {count : Nat} (store : after.store = source.free before.store ptr count)
      (lists : Lists after free) : Returned before after free ptr (.pages count)

/-- `GlobalAlloc` for the layout in a state. -/
structure HonoursLayout (history : HeapHistory Store) (layout : Layout) : Prop where
  aligned : (alloc source history.heap layout).2 = 0 ∨
    (alloc source history.heap layout).2 % layout.align = 0
  room : (alloc source history.heap layout).2 = 0 ∨
    layout.size ≤ blockLength layout.request ∧
      (alloc source history.heap layout).2 + blockLength layout.request ≤ 2 ^ 64 ∧
      ∀ grant ∈ history.outstanding,
        Apart ⟨(alloc source history.heap layout).2, blockLength layout.request⟩
          grant.toGrant.block
  taken : ∃ free, Lists history.heap.slab free ∧
    ((alloc source history.heap layout).2 = 0 ∨
      Taken source history.heap.slab (alloc source history.heap layout).1.slab free
        (alloc source history.heap layout).2 layout.origin)
  returned : ∃ free, Lists history.heap.slab free ∧
    ∀ grant ∈ history.outstanding, grant.layout = layout →
      Returned source history.heap.slab (dealloc source history.heap grant.ptr layout).slab free
        grant.ptr layout.origin

variable {source}

variable {history : History Store} {free : SlabAllocator.Class → List Nat}

theorem origin_of_class {layout : Layout} {idx : SlabAllocator.Class}
    (index : classIndex (max layout.request 8) = some idx) : layout.origin = .ofClass idx := by
  unfold Layout.origin
  rw [index]

theorem origin_of_pages {layout : Layout} (index : classIndex (max layout.request 8) = none) :
    layout.origin = .pages (pagesFor (max layout.request 8)) := by
  unfold Layout.origin
  rw [index]

theorem alloc_taken (kept : Kept source history free) (layout : Layout) :
    (SlabAllocator.alloc source history.slab layout.request).2 = 0 ∨
      Taken source history.slab (SlabAllocator.alloc source history.slab layout.request).1 free
        (SlabAllocator.alloc source history.slab layout.request).2 layout.origin := by
  have outcome := @alloc_case _ source history.slab layout.request
  generalize SlabAllocator.alloc source history.slab layout.request = result at outcome ⊢
  cases outcome with
  | refused => exact .inl rfl
  | @head idx index found =>
      obtain ⟨rest, list, lists⟩ := chains_take kept.chains found
      rw [origin_of_class index]
      exact .inr (.ofClass (.inl rfl) list lists)
  | @grown idx address store index allocated =>
      have grown := @kept_grow _ source history free address store idx allocated kept
      obtain ⟨rest, list, lists⟩ :=
        chains_take grown.chains (@grown_head _ source _ idx _ _ allocated)
      rw [Function.update_self] at list
      rw [Function.update_idem] at lists
      rw [origin_of_class index]
      exact .inr (.ofClass (.inr ⟨address, store, allocated, rfl⟩) list lists)
  | pages index allocated =>
      rw [origin_of_pages index]
      exact .inr (.pages allocated kept.chains)

theorem dealloc_returned {slab : Slab Store} {outstanding : List Grant} {grant : Grant}
    (kept : Kept source { slab := slab, outstanding := outstanding } free)
    (member : grant ∈ outstanding) {layout : Layout} (size : grant.size = layout.request) :
    Returned source slab (SlabAllocator.dealloc source slab grant.ptr layout.request) free grant.ptr
      layout.origin := by
  obtain ⟨position, below, rfl⟩ := List.getElem_of_mem member
  have first := kept_perm (List.getElem_cons_eraseIdx_perm below).symm kept
  have nonzero : outstanding[position].ptr ≠ 0 := (kept_first_placed first).nonzero
  unfold SlabAllocator.dealloc
  rw [if_neg nonzero]
  cases index : classIndex (max layout.request 8) with
  | none =>
      rw [origin_of_pages index]
      exact .pages rfl kept.chains
  | some idx =>
      rw [origin_of_class index]
      rw [← size] at index
      exact .ofClass (kept_release first index).chains rfl

theorem power_dvd {small large : Nat} (smallPower : small.isPowerOfTwo)
    (largePower : large.isPowerOfTwo) (le : small ≤ large) : small ∣ large := by
  obtain ⟨k, rfl⟩ := smallPower
  obtain ⟨m, rfl⟩ := largePower
  exact Nat.pow_dvd_pow 2 ((Nat.pow_le_pow_iff_right (by decide)).mp le)

theorem class_size_power (idx : SlabAllocator.Class) : (classSize idx).isPowerOfTwo := by
  have exponent : classSize idx = 2 ^ (idx.val + 3) := by
    revert idx
    decide
  exact ⟨_, exponent⟩

theorem align_dvd_granule {layout : Layout} (small : layout.align ≤ frameSize) :
    layout.align ∣ min (blockLength layout.request) frameSize := by
  have below : layout.align ≤ layout.request := le_max_right _ _
  have page : frameSize.isPowerOfTwo := ⟨12, rfl⟩
  have long := (block_length_fits (request_fits layout)).1
  cases index : classIndex (max layout.request 8) with
  | some idx =>
      have length : blockLength layout.request = classSize idx := by
        unfold blockLength
        rw [index]
      have cases := class_size_cases idx
      rw [length] at long ⊢
      rw [Nat.min_eq_left (by unfold frameSize; omega)]
      exact power_dvd layout.power (class_size_power idx) (by omega)
  | none =>
      have length : blockLength layout.request = pagesFor (max layout.request 8) * frameSize := by
        unfold blockLength
        rw [index]
      have large := class_index_none index
      rw [length] at long ⊢
      rw [Nat.min_eq_right (by unfold frameSize at *; omega)]
      exact power_dvd layout.power page small

theorem large_align_pages {layout : Layout} (large : frameSize < layout.align) :
    classIndex (max layout.request 8) = none ∧ max layout.request 8 = layout.request := by
  have below : layout.align ≤ layout.request := le_max_right _ _
  unfold frameSize at large
  constructor
  · cases index : classIndex (max layout.request 8) with
    | none => rfl
    | some idx =>
        have fits := class_index_fits index
        have cases := class_size_cases idx
        omega
  · omega

theorem alloc_placed (kept : Kept source history free) (layout : Layout) :
    (SlabAllocator.alloc source history.slab layout.request).2 = 0 ∨ ∃ store,
      Placed source store
        ⟨(SlabAllocator.alloc source history.slab layout.request).2, blockLength layout.request⟩ ∧
      ∀ grant ∈ history.outstanding,
        Apart ⟨(SlabAllocator.alloc source history.slab layout.request).2,
          blockLength layout.request⟩ grant.block := by
  obtain ⟨after, stepped⟩ := kept_alloc kept (request_fits layout)
  unfold History.step at stepped
  dsimp only at stepped
  split_ifs at stepped with null
  · exact .inl null
  · refine .inr ⟨_, kept_first_placed stepped, ?_⟩
    intro grant member
    exact (List.pairwise_cons.mp stepped.apart).1 grant.block
      (List.mem_append_left _ (List.mem_map_of_mem member))

def PagesAligned (source : PageSource Store) (slab : Slab Store) (layout : Layout) : Prop :=
  layout.align ≤ frameSize ∨
    ∀ address store, source.alloc slab.store (pagesFor layout.request) = some (address, store) →
      address % layout.align = 0

theorem alloc_aligned_iff (kept : Kept source history free) (layout : Layout) :
    ((SlabAllocator.alloc source history.slab layout.request).2 = 0 ∨
      (SlabAllocator.alloc source history.slab layout.request).2 % layout.align = 0) ↔
      PagesAligned source history.slab layout := by
  unfold PagesAligned
  by_cases small : layout.align ≤ frameSize
  · refine ⟨fun _ => .inl small, fun _ => ?_⟩
    rcases alloc_placed kept layout with null | ⟨store, placed, _⟩
    · exact .inl null
    · exact .inr (Nat.mod_eq_zero_of_dvd ((align_dvd_granule small).trans
        (Nat.dvd_of_mod_eq_zero placed.aligned)))
  · rw [or_iff_right small]
    obtain ⟨index, request⟩ := large_align_pages (not_le.mp small)
    unfold SlabAllocator.alloc
    rw [index, request]
    dsimp only
    cases allocated : source.alloc history.slab.store (pagesFor layout.request) with
    | none => exact ⟨fun _ => nofun, fun _ => .inl rfl⟩
    | some pair =>
        obtain ⟨address, store⟩ := pair
        rw [or_iff_right (source.nonzero allocated)]
        constructor
        · rintro aligned _ _ ⟨⟩
          exact aligned
        · exact fun aligned => aligned address store rfl

theorem honours_layout_iff {history : HeapHistory Store} (kept : Kept source history.below free)
    (layout : Layout) :
    HonoursLayout source history layout ↔ PagesAligned source history.heap.slab layout := by
  have same := alloc_slab source history.heap layout
  have ptr : (alloc source history.heap layout).2 =
      (SlabAllocator.alloc source history.heap.slab layout.request).2 := congrArg Prod.snd same
  have slab : (alloc source history.heap layout).1.slab =
      (SlabAllocator.alloc source history.heap.slab layout.request).1 := congrArg Prod.fst same
  constructor
  · intro honours
    have aligned := honours.aligned
    rw [ptr] at aligned
    exact (alloc_aligned_iff kept layout).mp aligned
  · intro aligned
    refine ⟨?_, ?_, ⟨free, kept.chains, ?_⟩, ⟨free, kept.chains, ?_⟩⟩
    · rw [ptr]
      exact (alloc_aligned_iff kept layout).mpr aligned
    · rw [ptr]
      rcases alloc_placed kept layout with null | ⟨store, placed, apart⟩
      · exact .inl null
      · have long := (block_length_fits (request_fits layout)).1
        have below : layout.size ≤ layout.request := le_max_left _ _
        refine .inr ⟨by omega, placed.representable, ?_⟩
        intro grant member
        exact apart grant.toGrant (List.mem_map_of_mem member)
    · rw [ptr, slab]
      exact alloc_taken kept layout
    · rintro grant member rfl
      exact dealloc_returned kept (List.mem_map_of_mem member) rfl

end

/-- The first fit in the bitmap is as aligned as a large layout asks. -/
def FirstFitAligned (store : BitmapStore) (layout : Layout) : Prop :=
  layout.align ≤ frameSize ∨
    ∀ first, IsFirstFit store.bitmap (pagesFor layout.request) first →
      store.bitmap.frameToAddr first % layout.align = 0

theorem pages_for_pos (layout : Layout) : 1 ≤ pagesFor layout.request := by
  have power := Nat.pos_of_isPowerOfTwo layout.power
  have fits := request_fits layout
  have below : layout.align ≤ layout.request := le_max_right _ _
  unfold pagesFor
  omega

theorem pages_aligned_iff (slab : Slab BitmapStore) (layout : Layout) :
    PagesAligned bitmapSource slab layout ↔ FirstFitAligned slab.store layout := by
  unfold PagesAligned FirstFitAligned
  have outcome := alloc_frames_case slab.store.bitmap (pages_for_pos layout)
  apply or_congr_right
  change (∀ address store, slab.store.allocPages (pagesFor layout.request) = some (address, store) →
    _) ↔ _
  unfold BitmapStore.allocPages
  generalize slab.store.bitmap.allocFrames (pagesFor layout.request) = result at outcome ⊢
  cases outcome with
  | @found start fits lowest =>
      dsimp only
      constructor
      · intro aligned first isFirst
        obtain rfl : first = start := first_fit_unique isFirst ⟨fits, lowest⟩
        exact aligned _ _ rfl
      · rintro aligned _ _ ⟨⟩
        exact aligned start ⟨fits, lowest⟩
  | exhausted full =>
      exact ⟨fun _ first isFirst => absurd isFirst.1 (full first), fun _ => nofun⟩

/-- In every reachable state, for every layout. -/
theorem heap_honours_layout_iff (memory : WordMemory) (store : BitmapStore)
    (actions : List HeapAction) (layout : Layout) :
    HonoursLayout bitmapSource
        ((heapSystem bitmapSource memory store).runFrom (heapSystem bitmapSource memory store).init
          actions) layout ↔
      FirstFitAligned
        ((heapSystem bitmapSource memory store).runFrom (heapSystem bitmapSource memory store).init
          actions).heap.slab.store layout := by
  obtain ⟨free, kept⟩ := heap_kept bitmapSource memory store actions
  rw [honours_layout_iff kept, pages_aligned_iff]

def wordLayout : Layout where
  size := 24
  align := 8
  power := ⟨3, rfl⟩
  fits := by decide

def twoPageLayout : Layout where
  size := 1
  align := 0x2000
  power := ⟨13, rfl⟩
  fits := by decide

/-- After one small block the next two pages start at `0x101000`. -/
theorem large_alignment_missed :
    (alloc bitmapSource ((heapSystem bitmapSource (fun _ => 0) eightFrames).runFrom
        (heapSystem bitmapSource (fun _ => 0) eightFrames).init [.alloc wordLayout]).heap
        twoPageLayout).2 = 0x101000 ∧
      ¬HonoursLayout bitmapSource
        ((heapSystem bitmapSource (fun _ => 0) eightFrames).runFrom
          (heapSystem bitmapSource (fun _ => 0) eightFrames).init [.alloc wordLayout])
        twoPageLayout := by
  have pages : (alloc bitmapSource ((heapSystem bitmapSource (fun _ => 0) eightFrames).runFrom
      (heapSystem bitmapSource (fun _ => 0) eightFrames).init [.alloc wordLayout]).heap
      twoPageLayout).2 = 0x101000 := by decide +kernel
  refine ⟨pages, ?_⟩
  intro honours
  have aligned := honours.aligned
  rw [pages] at aligned
  revert aligned
  decide

end Ferrugem.HeapLayouts
