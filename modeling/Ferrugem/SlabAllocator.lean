import Mathlib.Data.List.Pairwise
import Ferrugem.Library.EventSystem
import Ferrugem.Library.LinkedBlocks
import Ferrugem.BitmapPages

/-!
# The slab allocator

`kernel/src/memory/slab.rs`. Each of nine size classes keeps its free blocks in a
list that is linked through the blocks themselves; larger requests go to the
frame allocator. The frame allocator is a parameter with the laws that the code
relies on, and the bitmap meets them.
-/

namespace Ferrugem.SlabAllocator

open Ferrugem.FrameBitmapModel Ferrugem.FrameOwnership Ferrugem.BitmapPages
open LinkedBlocks

set_option autoImplicit false

/-- `memory::alloc_pages` and `memory::free_pages`; `InUse` is about page numbers. -/
structure PageSource (Store : Type) where
  alloc : Store → Nat → Option (Nat × Store)
  free : Store → Nat → Nat → Store
  InUse : Store → Nat → Prop
  nonzero : ∀ {store pages address after}, alloc store pages = some (address, after) → address ≠ 0
  aligned : ∀ {store pages address after}, alloc store pages = some (address, after) →
    address % frameSize = 0
  representable : ∀ {store pages address after}, alloc store pages = some (address, after) →
    address + pages * frameSize ≤ 2 ^ 64
  unused : ∀ {store pages address after}, alloc store pages = some (address, after) →
    ∀ i, i < pages → ¬InUse store (address / frameSize + i)
  taken : ∀ {store pages address after}, alloc store pages = some (address, after) →
    ∀ i, i < pages → InUse after (address / frameSize + i)
  kept : ∀ {store pages address after}, alloc store pages = some (address, after) →
    ∀ page, InUse store page → InUse after page
  freed : ∀ store address pages page, address < 2 ^ 64 → InUse store page →
    ¬(address / frameSize ≤ page ∧ page < address / frameSize + pages) →
    InUse (free store address pages) page

def classes : List Nat := [8, 16, 32, 64, 128, 256, 512, 1024, 2048]

abbrev Class := Fin classes.length

/-- `block_size`, which `init` sets. -/
def classSize (idx : Class) : Nat := classes.get idx

def slabPages : Nat := 1

def slabSize : Nat := slabPages * 4096

/-- `CACHES` and the memory that its lists run through. -/
structure Slab (Store : Type) where
  memory : WordMemory
  heads : Class → Nat
  store : Store

def classIndex (size : Nat) : Option Class :=
  (List.finRange classes.length).find? fun idx => size ≤ classSize idx

/-- `(size + 4095) / 4096`; the sum wraps. -/
def pagesFor (size : Nat) : Nat := (size + 4095) % 2 ^ 64 / 4096

section

variable {Store : Type} (source : PageSource Store)

def grow (slab : Slab Store) (idx : Class) : Option (Slab Store) :=
  match source.alloc slab.store slabPages with
  | none => none
  | some (address, store) =>
      some
        { memory := linkBlocks slab.memory address (classSize idx) (slab.heads idx)
            (slabSize / classSize idx)
          heads := Function.update slab.heads idx address
          store := store }

/-- The block at the head of a list, and the list without it. -/
def takeHead (slab : Slab Store) (idx : Class) : Slab Store × Nat :=
  ({ slab with
      heads := Function.update slab.heads idx (slab.memory.load (slab.heads idx)).toNat },
    slab.heads idx)

def alloc (slab : Slab Store) (size : Nat) : Slab Store × Nat :=
  match classIndex (max size 8) with
  | none =>
      match source.alloc slab.store (pagesFor (max size 8)) with
      | some (address, store) => ({ slab with store := store }, address)
      | none => (slab, 0)
  | some idx =>
      if slab.heads idx = 0 then
        match grow source slab idx with
        | some grown => takeHead grown idx
        | none => (slab, 0)
      else takeHead slab idx

def dealloc (slab : Slab Store) (ptr size : Nat) : Slab Store :=
  if ptr = 0 then slab
  else
    match classIndex (max size 8) with
    | none => { slab with store := source.free slab.store ptr (pagesFor (max size 8)) }
    | some idx =>
        { slab with
          memory := slab.memory.store ptr (BitVec.ofNat 64 (slab.heads idx))
          heads := Function.update slab.heads idx ptr }

/-- The bytes that a call of `alloc(size)` sets aside. -/
def blockLength (size : Nat) : Nat :=
  match classIndex (max size 8) with
  | some idx => classSize idx
  | none => pagesFor (max size 8) * frameSize

structure Grant where
  ptr : Nat
  size : Nat
  deriving DecidableEq

def Grant.block (grant : Grant) : Block where
  address := grant.ptr
  length := blockLength grant.size

structure History (Store : Type) where
  slab : Slab Store
  outstanding : List Grant

inductive Action where
  | alloc (size : Nat)
  | dealloc (position : Nat)
  | write (position offset : Nat) (bytes : List (BitVec 8))

/-- Owners release blocks with their original size and write inside them. -/
def History.step (history : History Store) : Action → History Store
  | .alloc size =>
      let (slab, ptr) := SlabAllocator.alloc source history.slab size
      if ptr = 0 then { history with slab := slab }
      else { slab := slab, outstanding := { ptr := ptr, size := size } :: history.outstanding }
  | .dealloc position =>
      match history.outstanding[position]? with
      | some grant =>
          { slab := SlabAllocator.dealloc source history.slab grant.ptr grant.size
            outstanding := history.outstanding.eraseIdx position }
      | none => history
  | .write position offset bytes =>
      match history.outstanding[position]? with
      | some grant =>
          if offset + bytes.length ≤ blockLength grant.size then
            { history with
              slab :=
                { history.slab with
                  memory := history.slab.memory.storeBytes (grant.ptr + offset) bytes } }
          else history
      | none => history

/-- Every sequence of calls and writes after `slab::init`. -/
def slabSystem (memory : WordMemory) (store : Store) :
    EventSystem (History Store) Action Unit where
  init := { slab := { memory := memory, heads := fun _ => 0, store := store }, outstanding := [] }
  step := fun history action => (history.step source action, none)

/-- The pages that a call of `alloc(size)` asks for if it asks for any. -/
def pagesNeeded (size : Nat) : Nat :=
  match classIndex (max size 8) with
  | some _ => slabPages
  | none => pagesFor (max size 8)

def freeBlock (idx : Class) (address : Nat) : Block where
  address := address
  length := classSize idx

/-- The free lists are finite chains of blocks of their class, apart from each other
and from what is outstanding. -/
structure FreeLists (history : History Store) (free : Class → List Nat) : Prop where
  chains : ∀ idx, Chain history.slab.memory (history.slab.heads idx) (free idx)
  distinct : ∀ idx, (free idx).Nodup
  aligned : ∀ idx, ∀ address ∈ free idx, address % classSize idx = 0
  apart : ∀ idx, (free idx).Pairwise fun address other =>
    Apart (freeBlock idx address) (freeBlock idx other)
  apartOthers : ∀ idx other, idx ≠ other → ∀ address ∈ free idx, ∀ address' ∈ free other,
    Apart (freeBlock idx address) (freeBlock other address')
  apartOutstanding : ∀ idx, ∀ address ∈ free idx, ∀ grant ∈ history.outstanding,
    Apart (freeBlock idx address) grant.block

structure Sound (history : History Store) : Prop where
  disjoint : history.outstanding.Pairwise fun grant other => Apart grant.block other.block
  long : ∀ grant ∈ history.outstanding, max grant.size 8 ≤ grant.block.length
  lists : ∃ free, FreeLists history free
  exhausted : ∀ size, (alloc source history.slab size).2 = 0 →
    source.alloc history.slab.store (pagesNeeded size) = none

def SizeFits : Action → Prop
  | .alloc size => size + 4095 < 2 ^ 64
  | _ => True

instance decidableSizeFits : ∀ action, Decidable (SizeFits action)
  | .alloc size => inferInstanceAs (Decidable (size + 4095 < 2 ^ 64))
  | .dealloc _ => isTrue trivial
  | .write _ _ _ => isTrue trivial

theorem class_size_cases (idx : Class) :
    8 ≤ classSize idx ∧ classSize idx ≤ 2048 ∧ classSize idx % 8 = 0 ∧
      classSize idx * (slabSize / classSize idx) = slabSize := by
  revert idx
  decide

theorem class_index_fits {size : Nat} {idx : Class} (found : classIndex size = some idx) :
    size ≤ classSize idx := by
  have fits := List.find?_some found
  simpa using fits

theorem class_index_none {size : Nat} (large : classIndex size = none) : 2048 < size := by
  have none := List.find?_eq_none.mp large ⟨8, by decide⟩ (List.mem_finRange _)
  simpa [classSize, classes] using none

theorem block_length_fits {size : Nat} (fits : size + 4095 < 2 ^ 64) :
    max size 8 ≤ blockLength size ∧ blockLength size % 8 = 0 := by
  unfold blockLength
  cases found : classIndex (max size 8) with
  | some idx =>
      have cases := class_size_cases idx
      exact ⟨class_index_fits found, cases.2.2.1⟩
  | none =>
      have large := class_index_none found
      unfold pagesFor frameSize
      dsimp only
      rw [Nat.mod_eq_of_lt (by omega)]
      omega

structure Placed (store : Store) (block : Block) : Prop where
  nonzero : block.address ≠ 0
  filled : 8 ≤ block.length
  multiple : block.length % 8 = 0
  aligned : block.address % min block.length frameSize = 0
  representable : block.address + block.length ≤ 2 ^ 64
  held : ∀ address, block.Has address → source.InUse store (address / frameSize)

def freeBlocks (free : Class → List Nat) : List Block :=
  (List.finRange classes.length).flatMap fun idx => (free idx).map (freeBlock idx)

def blocks (outstanding : List Grant) (free : Class → List Nat) : List Block :=
  outstanding.map Grant.block ++ freeBlocks free

structure Kept (history : History Store) (free : Class → List Nat) : Prop where
  chains : ∀ idx, Chain history.slab.memory (history.slab.heads idx) (free idx)
  apart : (blocks history.outstanding free).Pairwise Apart
  placed : ∀ block ∈ blocks history.outstanding free, Placed source history.slab.store block
  long : ∀ grant ∈ history.outstanding, max grant.size 8 ≤ grant.block.length

theorem mem_free_blocks {free : Class → List Nat} {block : Block} :
    block ∈ freeBlocks free ↔ ∃ idx, ∃ address ∈ free idx, freeBlock idx address = block := by
  simp [freeBlocks]

theorem free_blocks_add (free : Class → List Nat) (idx : Class) (added : List Nat) :
    (freeBlocks (Function.update free idx (added ++ free idx))).Perm
      (added.map (freeBlock idx) ++ freeBlocks free) := by
  have mapped : (fun other => ((Function.update free idx (added ++ free idx)) other).map
      (freeBlock other)) = Function.update (fun other => (free other).map (freeBlock other)) idx
        (added.map (freeBlock idx) ++ (free idx).map (freeBlock idx)) := by
    funext other
    by_cases same : other = idx
    · subst same
      rw [Function.update_self, Function.update_self, List.map_append]
    · rw [Function.update_of_ne same, Function.update_of_ne same]
  unfold freeBlocks
  rw [mapped]
  exact flat_map_update_perm (List.nodup_finRange _) (List.mem_finRange idx)
    (fun other => (free other).map (freeBlock other)) (added.map (freeBlock idx))

theorem free_blocks_take {free : Class → List Nat} {idx : Class} {address : Nat}
    {rest : List Nat} (list : free idx = address :: rest) :
    (freeBlocks free).Perm (freeBlock idx address :: freeBlocks (Function.update free idx rest)) := by
  have put := free_blocks_add (Function.update free idx rest) idx [address]
  rw [Function.update_self, List.singleton_append, ← list, Function.update_idem,
    Function.update_eq_self] at put
  exact put

section

variable {source} {history : History Store} {free : Class → List Nat}

theorem kept_free_placed (kept : Kept source history free) {idx : Class} {address : Nat}
    (member : address ∈ free idx) : Placed source history.slab.store (freeBlock idx address) :=
  kept.placed _ (List.mem_append_right _ (mem_free_blocks.mpr ⟨idx, address, member, rfl⟩))

theorem kept_head_small (kept : Kept source history free) (idx : Class) :
    history.slab.heads idx < 2 ^ 64 := by
  have chain := kept.chains idx
  cases list : free idx with
  | nil =>
      rw [list] at chain
      rw [show history.slab.heads idx = 0 from chain]
      decide
  | cons address rest =>
      rw [list] at chain
      have placed := kept_free_placed kept (list ▸ List.mem_cons_self : address ∈ free idx)
      have bound := placed.representable
      have filled := placed.filled
      rw [chain.1]
      unfold freeBlock at bound filled
      dsimp only at bound filled
      omega

theorem apart_unused {store : Store} {block other : Block} (placed : Placed source store block)
    (unused : ∀ address, other.Has address → ¬source.InUse store (address / frameSize))
    (filled : 0 < other.length) : Apart other block := by
  apply apart_of_has _ filled (Nat.lt_of_lt_of_le (by decide) placed.filled)
  intro address mine held
  exact unused address mine (placed.held address held)

theorem placed_kept {store after : Store} {block : Block} (placed : Placed source store block)
    (kept : ∀ page, source.InUse store page → source.InUse after page) :
    Placed source after block :=
  { placed with held := fun address has => kept _ (placed.held address has) }

theorem run_block_inside {idx : Class} {i : Nat} (low : i < slabSize / classSize idx) :
    i * classSize idx + classSize idx ≤ slabSize := by
  have whole := (class_size_cases idx).2.2.2
  have step : (i + 1) * classSize idx ≤ slabSize / classSize idx * classSize idx :=
    Nat.mul_le_mul_right _ low
  rw [Nat.add_mul, Nat.one_mul, Nat.mul_comm (slabSize / classSize idx), whole] at step
  exact step

theorem slab_page {address pointer : Nat} (aligned : address % frameSize = 0)
    (low : address ≤ pointer) (high : pointer < address + slabSize) :
    pointer / frameSize = address / frameSize + 0 := by
  unfold slabSize slabPages at high
  unfold frameSize at *
  omega

section

variable {address : Nat} {store : Store} {idx : Class}
  (allocated : source.alloc history.slab.store slabPages = some (address, store))

include allocated

theorem run_block_unused {i : Nat} (low : i < slabSize / classSize idx) (pointer : Nat)
    (has : (freeBlock idx (address + i * classSize idx)).Has pointer) :
    ¬source.InUse history.slab.store (pointer / frameSize) := by
  have inside := run_block_inside low
  unfold freeBlock Block.Has at has
  dsimp only at has
  rw [slab_page (source.aligned allocated) (by omega) (by omega)]
  exact source.unused allocated 0 Nat.one_pos

theorem run_block_placed {i : Nat} (low : i < slabSize / classSize idx) :
    Placed source store (freeBlock idx (address + i * classSize idx)) := by
  have inside := run_block_inside low
  have aligned := source.aligned allocated
  have bound := source.representable allocated
  obtain ⟨wide, small, multiple, whole⟩ := class_size_cases idx
  constructor
  · exact Nat.ne_of_gt (Nat.add_pos_left (Nat.pos_of_ne_zero (source.nonzero allocated)) _)
  · exact wide
  · exact multiple
  · -- the size of a class divides the size of a page
    have divides : classSize idx ∣ address := by
      have page : classSize idx ∣ frameSize := Dvd.intro _ whole
      exact Nat.dvd_trans page (Nat.dvd_of_mod_eq_zero aligned)
    unfold freeBlock frameSize
    dsimp only
    rw [Nat.min_eq_left (by omega)]
    exact Nat.mod_eq_zero_of_dvd (Nat.dvd_add divides (Nat.dvd_mul_left _ _))
  · have page : slabPages * frameSize = slabSize := rfl
    rw [page] at bound
    unfold freeBlock
    dsimp only
    omega
  · intro pointer has
    unfold freeBlock Block.Has at has
    dsimp only at has
    rw [slab_page aligned (by omega) (by omega)]
    exact source.taken allocated 0 Nat.one_pos

theorem run_block_words (kept : Kept source history free) {other : Class} {block : Nat}
    (member : block ∈ free other) (i : Nat) (low : i < slabSize / classSize idx) :
    block / 8 ≠ (address + i * classSize idx) / 8 := by
  intro same
  have inside := run_block_inside low
  have placed := kept_free_placed kept member
  have filled := placed.filled
  have used := placed.held block ⟨Nat.le_refl _, by unfold freeBlock at *; dsimp only at *; omega⟩
  have aligned := source.aligned allocated
  have page : block / frameSize = address / frameSize + 0 := by
    rw [← slab_page aligned (by omega : address ≤ address + i * classSize idx)
      (by have wide := (class_size_cases idx).1; omega)]
    unfold frameSize
    omega
  rw [page] at used
  exact source.unused allocated 0 Nat.one_pos used

theorem kept_grow (kept : Kept source history free) :
    Kept source
      { history with
        slab :=
          { memory := linkBlocks history.slab.memory address (classSize idx)
              (history.slab.heads idx) (slabSize / classSize idx)
            heads := Function.update history.slab.heads idx address
            store := store } }
      (Function.update free idx
        (runBlocks address (classSize idx) (slabSize / classSize idx) ++ free idx)) := by
  obtain ⟨wide, small, multiple, whole⟩ := class_size_cases idx
  have bound := source.representable allocated
  have perm : (blocks history.outstanding (Function.update free idx
      (runBlocks address (classSize idx) (slabSize / classSize idx) ++ free idx))).Perm
        ((runBlocks address (classSize idx) (slabSize / classSize idx)).map (freeBlock idx) ++
          blocks history.outstanding free) :=
    ((free_blocks_add free idx _).append_left _).trans (List.perm_append_comm_assoc _ _ _)
  constructor
  · intro other
    dsimp only
    by_cases same : other = idx
    · subst same
      rw [Function.update_self, Function.update_self]
      have some : 0 < slabSize / classSize other := by
        by_contra none
        rw [Nat.not_lt, Nat.le_zero] at none
        rw [none] at whole
        cases whole
      apply chain_link_blocks wide some (source.nonzero allocated) _ (kept_head_small kept other)
        (kept.chains other)
      · intro block member i low
        exact run_block_words allocated kept member i low
      · rw [Nat.mul_comm, whole]
        exact bound
    · rw [Function.update_of_ne same, Function.update_of_ne same]
      apply chain_frame _ (kept.chains other)
      intro block member
      exact link_blocks_other wide fun i low => run_block_words allocated kept member i low
  · rw [perm.pairwise_iff apart_symmetric, List.pairwise_append]
    refine ⟨?_, kept.apart, ?_⟩
    · unfold runBlocks
      rw [List.map_map, List.pairwise_map]
      apply List.pairwise_lt_range.imp
      intro i j order
      have step : (i + 1) * classSize idx ≤ j * classSize idx :=
        Nat.mul_le_mul_right _ order
      rw [Nat.add_mul, Nat.one_mul] at step
      left
      unfold freeBlock
      dsimp only [Function.comp]
      omega
    · intro block new other old
      obtain ⟨pointer, run, rfl⟩ := List.mem_map.mp new
      obtain ⟨i, low, rfl⟩ := List.mem_map.mp run
      exact apart_unused (kept.placed other old)
        (run_block_unused allocated (List.mem_range.mp low)) (Nat.lt_of_lt_of_le (by decide) wide)
  · intro block member
    rcases List.mem_append.mp (perm.mem_iff.mp member) with new | old
    · obtain ⟨pointer, run, rfl⟩ := List.mem_map.mp new
      obtain ⟨i, low, rfl⟩ := List.mem_map.mp run
      exact run_block_placed allocated (List.mem_range.mp low)
    · exact placed_kept (kept.placed block old) (source.kept allocated)
  · exact kept.long

end

theorem chains_take {slab : Slab Store}
    (chains : ∀ idx, Chain slab.memory (slab.heads idx) (free idx)) {idx : Class}
    (some : slab.heads idx ≠ 0) :
    ∃ rest, free idx = slab.heads idx :: rest ∧
      ∀ other, Chain (takeHead slab idx).1.memory ((takeHead slab idx).1.heads other)
        (Function.update free idx rest other) := by
  have chain := chains idx
  cases list : free idx with
  | nil =>
      rw [list] at chain
      exact absurd chain some
  | cons address rest =>
      rw [list] at chain
      obtain ⟨head, _, linked⟩ := chain
      refine ⟨rest, by rw [head], ?_⟩
      intro other
      unfold takeHead
      dsimp only
      by_cases same : other = idx
      · subst same
        rw [Function.update_self, Function.update_self, head]
        exact linked
      · rw [Function.update_of_ne same, Function.update_of_ne same]
        exact chains other

theorem kept_take (kept : Kept source history free) {idx : Class} {size : Nat}
    (some : history.slab.heads idx ≠ 0) (index : classIndex (max size 8) = Option.some idx)
    (fits : size + 4095 < 2 ^ 64) :
    ∃ rest, Kept source
      { slab := (takeHead history.slab idx).1
        outstanding := { ptr := (takeHead history.slab idx).2, size := size } ::
          history.outstanding } (Function.update free idx rest) := by
  obtain ⟨rest, list, chains⟩ := chains_take kept.chains some
  have length : blockLength size = classSize idx := by rw [blockLength, index]
  have perm : (blocks ({ ptr := history.slab.heads idx, size := size } :: history.outstanding)
      (Function.update free idx rest)).Perm (blocks history.outstanding free) := by
    have block : Grant.block { ptr := history.slab.heads idx, size := size } =
        freeBlock idx (history.slab.heads idx) := by
      unfold Grant.block freeBlock
      rw [length]
    unfold blocks
    rw [List.map_cons, List.cons_append, block]
    exact List.perm_middle.symm.trans ((free_blocks_take list).symm.append_left _)
  refine ⟨rest, chains, ?_, ?_, ?_⟩
  · exact (perm.pairwise_iff apart_symmetric).mpr kept.apart
  · exact fun block member => kept.placed block (perm.mem_iff.mp member)
  · intro grant member
    rcases List.mem_cons.mp member with rfl | earlier
    · exact (block_length_fits fits).1
    · exact kept.long grant earlier

theorem kept_large (kept : Kept source history free) {size address : Nat} {store : Store}
    (index : classIndex (max size 8) = none) (fits : size + 4095 < 2 ^ 64)
    (allocated : source.alloc history.slab.store (pagesFor (max size 8)) = some (address, store)) :
    Kept source
      { slab := { history.slab with store := store }
        outstanding := { ptr := address, size := size } :: history.outstanding } free := by
  have length : blockLength size = pagesFor (max size 8) * frameSize := by rw [blockLength, index]
  obtain ⟨long, multiple⟩ := block_length_fits fits
  have aligned := source.aligned allocated
  have pages (pointer : Nat) (has : (Grant.block { ptr := address, size := size }).Has pointer) :
      ∃ i, i < pagesFor (max size 8) ∧ pointer / frameSize = address / frameSize + i := by
    unfold Block.Has Grant.block at has
    dsimp only at has
    rw [length] at has
    refine ⟨pointer / frameSize - address / frameSize, ?_⟩
    unfold frameSize at *
    omega
  constructor
  · exact kept.chains
  · refine List.pairwise_cons.mpr ⟨?_, kept.apart⟩
    intro other member
    apply apart_unused (kept.placed other member)
    · intro pointer has
      obtain ⟨i, low, page⟩ := pages pointer has
      rw [page]
      exact source.unused allocated i low
    · unfold Grant.block
      dsimp only
      omega
  · intro block member
    rcases List.mem_cons.mp member with rfl | earlier
    · constructor
      · exact source.nonzero allocated
      · unfold Grant.block
        dsimp only
        omega
      · exact multiple
      · have large := class_index_none index
        unfold Grant.block
        dsimp only
        rw [length] at long ⊢
        unfold frameSize at *
        rw [Nat.min_eq_right (by omega)]
        exact aligned
      · unfold Grant.block
        dsimp only
        rw [length]
        exact source.representable allocated
      · intro pointer has
        obtain ⟨i, low, page⟩ := pages pointer has
        rw [page]
        exact source.taken allocated i low
    · exact placed_kept (kept.placed block earlier) (source.kept allocated)
  · intro grant member
    rcases List.mem_cons.mp member with rfl | earlier
    · exact long
    · exact kept.long grant earlier

theorem placed_words {store : Store} {block : Block} (placed : Placed source store block) :
    block.address % 8 = 0 := by
  have multiple := placed.multiple
  have granule : 8 ∣ min block.length frameSize := by
    unfold frameSize
    omega
  exact Nat.mod_eq_zero_of_dvd
    (Nat.dvd_trans granule (Nat.dvd_of_mod_eq_zero placed.aligned))

section

variable {slab : Slab Store} {grant : Grant} {rest : List Grant}
  (kept : Kept source { slab := slab, outstanding := grant :: rest } free)

include kept

theorem kept_first_placed : Placed source slab.store grant.block :=
  kept.placed _ (List.mem_append_left _ List.mem_cons_self)

theorem kept_owner_words {idx : Class} {address pointer : Nat} (member : address ∈ free idx)
    (has : grant.block.Has pointer) : address / 8 ≠ pointer / 8 := by
  have placed := kept_free_placed kept member
  have apart := (List.pairwise_cons.mp kept.apart).1 (freeBlock idx address)
    (List.mem_append_right _ (mem_free_blocks.mpr ⟨idx, address, member, rfl⟩))
  have filled := placed.filled
  refine (apart_words apart (placed_words (kept_first_placed kept))
    (kept_first_placed kept).multiple has ⟨Nat.le_refl _, ?_⟩).symm
  unfold freeBlock at filled ⊢
  dsimp only at filled ⊢
  omega

theorem kept_release {idx : Class} (index : classIndex (max grant.size 8) = some idx) :
    Kept source
      { slab :=
          { slab with
            memory := slab.memory.store grant.ptr (BitVec.ofNat 64 (slab.heads idx))
            heads := Function.update slab.heads idx grant.ptr }
        outstanding := rest } (Function.update free idx ([grant.ptr] ++ free idx)) := by
  have placed := kept_first_placed kept
  have filled := placed.filled
  have first : grant.block.Has grant.ptr :=
    ⟨Nat.le_refl _, Nat.lt_add_of_pos_right (Nat.lt_of_lt_of_le (by decide) filled)⟩
  have block : grant.block = freeBlock idx grant.ptr := by
    unfold Grant.block freeBlock blockLength
    rw [index]
  have perm : (blocks rest (Function.update free idx ([grant.ptr] ++ free idx))).Perm
      (blocks (grant :: rest) free) := by
    unfold blocks
    rw [List.map_cons, List.cons_append, block]
    exact ((free_blocks_add free idx [grant.ptr]).append_left _).trans List.perm_middle
  constructor
  · intro other
    dsimp only
    by_cases same : other = idx
    · subst same
      rw [Function.update_self, Function.update_self]
      exact chain_push (kept.chains other) placed.nonzero (kept_head_small kept other)
        fun address member => kept_owner_words kept member first
    · rw [Function.update_of_ne same, Function.update_of_ne same]
      apply chain_frame _ (kept.chains other)
      intro address member
      exact load_store_other (kept_owner_words kept member first) _
  · exact (perm.pairwise_iff apart_symmetric).mpr kept.apart
  · exact fun block member => kept.placed block (perm.mem_iff.mp member)
  · exact fun other member => kept.long other (List.mem_cons_of_mem _ member)

theorem kept_release_pages (index : classIndex (max grant.size 8) = none) :
    Kept source
      { slab := { slab with store := source.free slab.store grant.ptr (pagesFor (max grant.size 8)) }
        outstanding := rest } free := by
  have placed := kept_first_placed kept
  have large := class_index_none index
  have length : grant.block.length = pagesFor (max grant.size 8) * frameSize := by
    unfold Grant.block blockLength
    rw [index]
  have aligned : grant.ptr % frameSize = 0 := by
    have aligned := placed.aligned
    have filled := placed.filled
    rw [length] at aligned filled
    rwa [Nat.min_eq_right] at aligned
    unfold frameSize at *
    omega
  obtain ⟨apart, others⟩ := List.pairwise_cons.mp kept.apart
  refine ⟨kept.chains, others, ?_, fun other member =>
    kept.long other (List.mem_cons_of_mem _ member)⟩
  intro block member
  have before := kept.placed block (List.mem_cons_of_mem _ member)
  refine { before with held := ?_ }
  intro address has
  have small : grant.ptr < 2 ^ 64 := by
    have bound := placed.representable
    have filled := placed.filled
    unfold Grant.block at bound filled
    dsimp only at bound filled
    omega
  apply source.freed _ _ _ _ small (before.held address has)
  have separate := apart block member
  unfold Apart at separate
  unfold Block.Has at has
  rw [length] at separate
  unfold Grant.block at separate
  unfold frameSize at *
  dsimp only at separate
  omega

theorem kept_write {offset : Nat} {bytes : List (BitVec 8)}
    (inside : offset + bytes.length ≤ blockLength grant.size) :
    Kept source
      { slab := { slab with memory := slab.memory.storeBytes (grant.ptr + offset) bytes }
        outstanding := grant :: rest } free := by
  refine ⟨?_, kept.apart, kept.placed, kept.long⟩
  intro idx
  cases bytes with
  | nil => exact kept.chains idx
  | cons byte more =>
      apply chain_frame _ (kept.chains idx)
      intro address member
      apply WordMemory.store_bytes_changes
      rintro ⟨low, high⟩
      rw [List.length_cons] at inside high
      -- the first byte of the write in that word lies in the owner's block
      have has : grant.block.Has (max (grant.ptr + offset) (address / 8 * 8)) := by
        unfold Block.Has Grant.block
        dsimp only
        omega
      have apart := kept_owner_words kept member has
      omega

end

theorem kept_init (memory : WordMemory) (store : Store) :
    Kept source (slabSystem source memory store).init fun _ => [] where
  chains := fun _ => rfl
  apart := by
    have none : freeBlocks (fun _ => []) = [] := by decide
    unfold blocks
    rw [none]
    exact .nil
  placed := by
    intro block member
    have none : freeBlocks (fun _ => []) = [] := by decide
    unfold blocks at member
    rw [none] at member
    cases member
  long := by
    intro grant member
    cases member

theorem kept_perm {slab : Slab Store} {before after : List Grant} (same : before.Perm after)
    (kept : Kept source { slab := slab, outstanding := before } free) :
    Kept source { slab := slab, outstanding := after } free := by
  have perm : (blocks before free).Perm (blocks after free) := (same.map _).append_right _
  exact ⟨kept.chains, (perm.pairwise_iff apart_symmetric).mp kept.apart,
    fun block member => kept.placed block (perm.mem_iff.mpr member),
    fun grant member => kept.long grant (same.mem_iff.mpr member)⟩

/-- The slab after `grow` of a class with a page from the source. -/
def grownSlab (slab : Slab Store) (idx : Class) (address : Nat) (store : Store) : Slab Store where
  memory := linkBlocks slab.memory address (classSize idx) (slab.heads idx)
    (slabSize / classSize idx)
  heads := Function.update slab.heads idx address
  store := store

/-- The specification of `alloc`. -/
inductive AllocCase (source : PageSource Store) (slab : Slab Store) (size : Nat) :
    Slab Store × Nat → Prop where
  | refused (out : source.alloc slab.store (pagesNeeded size) = none) :
      AllocCase source slab size (slab, 0)
  | head {idx : Class} (index : classIndex (max size 8) = some idx) (found : slab.heads idx ≠ 0) :
      AllocCase source slab size (takeHead slab idx)
  | grown {idx : Class} {address : Nat} {store : Store}
      (index : classIndex (max size 8) = some idx)
      (allocated : source.alloc slab.store slabPages = some (address, store)) :
      AllocCase source slab size (takeHead (grownSlab slab idx address store) idx)
  | pages {address : Nat} {store : Store} (index : classIndex (max size 8) = none)
      (allocated : source.alloc slab.store (pagesFor (max size 8)) = some (address, store)) :
      AllocCase source slab size ({ slab with store := store }, address)

theorem alloc_case (slab : Slab Store) (size : Nat) :
    AllocCase source slab size (alloc source slab size) := by
  unfold alloc
  cases index : classIndex (max size 8) with
  | none =>
      dsimp only
      cases allocated : source.alloc slab.store (pagesFor (max size 8)) with
      | none =>
          apply AllocCase.refused
          rw [pagesNeeded, index]
          exact allocated
      | some result => exact .pages index allocated
  | some idx =>
      dsimp only
      split_ifs with empty
      · unfold grow
        cases allocated : source.alloc slab.store slabPages with
        | none =>
            apply AllocCase.refused
            rw [pagesNeeded, index]
            exact allocated
        | some result => exact .grown index allocated
      · exact .head index empty

theorem grown_head {slab : Slab Store} {idx : Class} {address : Nat} {store : Store}
    (allocated : source.alloc slab.store slabPages = some (address, store)) :
    (grownSlab slab idx address store).heads idx ≠ 0 := by
  unfold grownSlab
  dsimp only
  rw [Function.update_self]
  exact source.nonzero allocated

theorem kept_alloc (kept : Kept source history free) {size : Nat} (fits : size + 4095 < 2 ^ 64) :
    ∃ after, Kept source (history.step source (.alloc size)) after := by
  have outcome := @alloc_case _ source history.slab size
  unfold History.step
  dsimp only
  generalize alloc source history.slab size = result at outcome ⊢
  cases outcome with
  | refused out => exact ⟨free, kept⟩
  | @head idx index found =>
      obtain ⟨rest, taken⟩ := kept_take kept found index fits
      rw [if_neg (show (takeHead history.slab idx).2 ≠ 0 from found)]
      exact ⟨_, taken⟩
  | @grown idx address store index allocated =>
      have grown := @kept_grow _ source history free address store idx allocated kept
      have head := @grown_head _ source _ idx _ _ allocated
      obtain ⟨rest, taken⟩ := kept_take grown head index fits
      rw [if_neg (show (takeHead (grownSlab history.slab idx address store) idx).2 ≠ 0 from head)]
      exact ⟨_, taken⟩
  | pages index allocated =>
      rw [if_neg (source.nonzero allocated)]
      exact ⟨free, kept_large kept index fits allocated⟩

theorem kept_step (kept : Kept source history free) {action : Action} (fits : SizeFits action) :
    ∃ after, Kept source (history.step source action) after := by
  cases action with
  | alloc size => exact kept_alloc kept fits
  | dealloc position =>
      unfold History.step
      dsimp only
      cases found : history.outstanding[position]? with
      | none => exact ⟨free, kept⟩
      | some grant =>
          obtain ⟨bound, rfl⟩ := List.getElem?_eq_some_iff.mp found
          have first := kept_perm (List.getElem_cons_eraseIdx_perm bound).symm kept
          have nonzero : history.outstanding[position].ptr ≠ 0 := (kept_first_placed first).nonzero
          dsimp only
          unfold dealloc
          rw [if_neg nonzero]
          cases index : classIndex (max history.outstanding[position].size 8) with
          | none => exact ⟨free, kept_release_pages first index⟩
          | some idx => exact ⟨_, kept_release first index⟩
  | write position offset bytes =>
      unfold History.step
      dsimp only
      cases found : history.outstanding[position]? with
      | none => exact ⟨free, kept⟩
      | some grant =>
          obtain ⟨bound, rfl⟩ := List.getElem?_eq_some_iff.mp found
          have perm := List.getElem_cons_eraseIdx_perm bound
          dsimp only
          split_ifs with inside
          · exact ⟨free, kept_perm perm (kept_write (kept_perm perm.symm kept) inside)⟩
          · exact ⟨free, kept⟩

/-- Only the frame allocator lets `alloc` return null. -/
theorem alloc_null {slab : Slab Store} {size : Nat} (null : (alloc source slab size).2 = 0) :
    source.alloc slab.store (pagesNeeded size) = none := by
  have outcome := @alloc_case _ source slab size
  generalize alloc source slab size = result at outcome null
  cases outcome with
  | refused out => exact out
  | head index found => exact absurd null found
  | grown index allocated => exact absurd null (grown_head allocated)
  | pages index allocated => exact absurd null (source.nonzero allocated)

theorem kept_free_lists (kept : Kept source history free) : FreeLists history free := by
  obtain ⟨_, freeApart, across⟩ := List.pairwise_append.mp kept.apart
  have apart (idx : Class) : (free idx).Pairwise fun address other =>
      Apart (freeBlock idx address) (freeBlock idx other) := by
    have inside := (List.pairwise_flatMap.mp freeApart).1 idx (List.mem_finRange idx)
    exact List.pairwise_map.mp inside
  constructor
  · exact kept.chains
  · intro idx
    apply (apart idx).imp
    rintro address _ apart rfl
    have wide := (class_size_cases idx).1
    unfold Apart freeBlock at apart
    dsimp only at apart
    omega
  · intro idx address member
    have aligned := (kept_free_placed kept member).aligned
    have small := (class_size_cases idx).2.1
    unfold freeBlock frameSize at aligned
    dsimp only at aligned
    rwa [Nat.min_eq_left (by omega)] at aligned
  · exact apart
  · intro idx other different address member address' member'
    have apartLists := (List.pairwise_flatMap.mp freeApart).2
    have symmetric : Std.Symm fun (idx other : Class) => ∀ block ∈ (free idx).map (freeBlock idx),
        ∀ block' ∈ (free other).map (freeBlock other), Apart block block' :=
      ⟨fun _ _ apart block in' block' in'' => (apart block' in'' block in').symm⟩
    exact apartLists.forall (List.mem_finRange idx) (List.mem_finRange other) different _
      (List.mem_map_of_mem member) _ (List.mem_map_of_mem member')
  · intro idx address member grant granted
    exact (across _ (List.mem_map_of_mem granted) _
      (mem_free_blocks.mpr ⟨idx, address, member, rfl⟩)).symm

theorem kept_sound (kept : Kept source history free) : Sound source history where
  disjoint := List.pairwise_map.mp (List.pairwise_append.mp kept.apart).1
  long := kept.long
  lists := ⟨free, kept_free_lists kept⟩
  exhausted := fun _ null => alloc_null null

end

end

/-- In every run whose allocations can be rounded up to whole pages, the allocator
is sound after every step. -/
theorem slab_sound {Store : Type} (source : PageSource Store) (memory : WordMemory)
    (store : Store) (actions : List Action)
    (meets : (slabSystem source memory store).StepsMeet (fun _ action => SizeFits action)
      (slabSystem source memory store).init actions) :
    Sound source ((slabSystem source memory store).runFrom
      (slabSystem source memory store).init actions) := by
  obtain ⟨free, kept⟩ := EventSystem.run_preserves
    (fun history : History Store => ∃ free, Kept source history free)
    (fun _ _ ⟨_, kept⟩ fits => kept_step kept fits) ⟨_, kept_init memory store⟩ meets
  exact kept_sound kept

structure BitmapStore where
  bitmap : FrameBitmap
  aligned : bitmap.memBase % frameSize = 0
  positive : 0 < bitmap.memBase
  representable : bitmap.memBase + bitmap.totalFrames * frameSize ≤ 2 ^ 64

namespace BitmapStore

def mark (store : BitmapStore) (first n : Nat) : BitmapStore where
  bitmap := store.bitmap.markRange first n
  aligned := by
    rw [mark_range_base]
    exact store.aligned
  positive := by
    rw [mark_range_base]
    exact store.positive
  representable := by
    rw [mark_range_base, mark_range_total]
    exact store.representable

def InUse (store : BitmapStore) (page : Nat) : Prop :=
  ∃ bit, bit < store.bitmap.totalFrames ∧ page = store.bitmap.memBase / frameSize + bit ∧
    store.bitmap.isUsed bit = true

/-- `alloc_pages` once the bitmap is ready. -/
def allocPages (store : BitmapStore) (pages : Nat) : Option (Nat × BitmapStore) :=
  match (store.bitmap.allocFrames pages).2 with
  | some first => some (store.bitmap.frameToAddr first, store.mark first pages)
  | none => none

/-- `addr_to_frame`; the difference wraps. -/
def addrToFrame (store : BitmapStore) (address : Nat) : Nat :=
  (2 ^ 64 + address - store.bitmap.memBase) % 2 ^ 64 / frameSize

/-- `free_pages` once the bitmap is ready. -/
def freePages (store : BitmapStore) (address pages : Nat) : BitmapStore where
  bitmap := freeFrames store.bitmap (store.addrToFrame address) pages
  aligned := by
    rw [free_frames_base]
    exact store.aligned
  positive := by
    rw [free_frames_base]
    exact store.positive
  representable := by
    rw [free_frames_base, free_frames_total]
    exact store.representable

theorem store_alloc_spec {store after : BitmapStore} {pages address : Nat}
    (allocated : store.allocPages pages = some (address, after)) :
    ∃ first, address = store.bitmap.memBase + first * frameSize ∧ after = store.mark first pages ∧
      first + pages ≤ store.bitmap.totalFrames ∧
      ∀ i, i < pages → store.bitmap.isUsed (first + i) = false := by
  unfold allocPages at allocated
  cases found : (store.bitmap.allocFrames pages).2 with
  | none =>
      rw [found] at allocated
      cases allocated
  | some first =>
      rw [found] at allocated
      cases allocated
      exact ⟨first, rfl, rfl, alloc_frames_found found⟩

theorem store_page_number (store : BitmapStore) (first i : Nat) :
    (store.bitmap.memBase + first * frameSize) / frameSize + i =
      store.bitmap.memBase / frameSize + (first + i) := by
  unfold frameSize
  omega

end BitmapStore

open BitmapStore in
def bitmapSource : PageSource BitmapStore where
  alloc := allocPages
  free := freePages
  InUse := InUse
  nonzero := by
    intro store pages address after allocated
    obtain ⟨first, rfl, _⟩ := store_alloc_spec allocated
    have positive := store.positive
    omega
  aligned := by
    intro store pages address after allocated
    obtain ⟨first, rfl, _⟩ := store_alloc_spec allocated
    have aligned := store.aligned
    unfold frameSize at aligned ⊢
    omega
  representable := by
    intro store pages address after allocated
    obtain ⟨first, rfl, _, inside, _⟩ := store_alloc_spec allocated
    have bound := store.representable
    unfold frameSize at bound ⊢
    omega
  unused := by
    intro store pages address after allocated i low
    obtain ⟨first, rfl, _, inside, clear⟩ := store_alloc_spec allocated
    have free := clear i low
    rw [store_page_number]
    rintro ⟨bit, _, same, used⟩
    obtain rfl : bit = first + i := by omega
    rw [free] at used
    cases used
  taken := by
    intro store pages address after allocated i low
    obtain ⟨first, rfl, rfl, inside, _⟩ := store_alloc_spec allocated
    refine ⟨first + i, ?_, ?_, ?_⟩
    · simp only [mark, mark_range_total]
      omega
    · simp only [mark, mark_range_base]
      exact store_page_number store first i
    · exact (mark_range_test _ _ _ _).mpr (.inl (by omega))
  kept := by
    rintro store pages address after allocated page ⟨bit, inside, rfl, used⟩
    obtain ⟨first, rfl, rfl, _⟩ := store_alloc_spec allocated
    refine ⟨bit, ?_, ?_, ?_⟩
    · simp only [mark, mark_range_total]
      exact inside
    · simp only [mark, mark_range_base]
    · exact (mark_range_test _ _ _ _).mpr (.inr used)
  freed := by
    rintro store address pages page small ⟨bit, inside, rfl, used⟩ outside
    refine ⟨bit, ?_, ?_, ?_⟩
    · simp only [freePages, free_frames_total]
      exact inside
    · simp only [freePages, free_frames_base]
    · apply free_frames_keeps used
      have aligned := store.aligned
      have bound := store.representable
      unfold addrToFrame
      unfold frameSize at *
      omega

def eightFrames : BitmapStore where
  bitmap := regionFrames { base := 0x100000, size := 8 * frameSize, kind := .usable }
  aligned := by decide
  positive := by decide
  representable := by decide

/-- Two small blocks, a write to one of them, its release and a large block. -/
def shortRun : List Action :=
  [.alloc 24, .alloc 5000, .alloc 30, .write 0 3 [0xFF, 0xFF], .dealloc 0, .alloc 32]

theorem short_run_sound :
    Sound bitmapSource ((slabSystem bitmapSource (fun _ => 0) eightFrames).runFrom
      (slabSystem bitmapSource (fun _ => 0) eightFrames).init shortRun) :=
  slab_sound bitmapSource (fun _ => 0) eightFrames shortRun
    ⟨by decide, by decide, by decide, trivial, trivial, by decide, trivial⟩

/-- A request for all bytes but one of the address space is answered with the
first frame, although no page is set aside. -/
theorem largest_size_granted :
    ¬Sound bitmapSource ((slabSystem bitmapSource (fun _ => 0) eightFrames).runFrom
      (slabSystem bitmapSource (fun _ => 0) eightFrames).init [.alloc (2 ^ 64 - 1)]) := by
  intro sound
  have granted : { ptr := 0x100000, size := 2 ^ 64 - 1 } ∈
      ((slabSystem bitmapSource (fun _ => 0) eightFrames).runFrom
        (slabSystem bitmapSource (fun _ => 0) eightFrames).init
          [.alloc (2 ^ 64 - 1)]).outstanding := by
    decide +kernel
  have long := sound.long _ granted
  revert long
  decide +kernel

end Ferrugem.SlabAllocator
