import Ferrugem.FrameOwnership
import Ferrugem.PagingModel

/-!
# The bitmap as the page allocator

`memory::alloc_pages` over the frame bitmap meets the laws that the paging code
relies on: from a page-aligned region whose kernel frames are marked, it hands
out aligned frames that are not in use and lie outside the image.
-/

namespace Ferrugem.BitmapPages

open Ferrugem.FrameBitmapModel Ferrugem.FrameOwnership Ferrugem.PagingModel

set_option autoImplicit false

theorem mark_used_base (bitmap : FrameBitmap) (frame : Nat) :
    (bitmap.markUsed frame).memBase = bitmap.memBase := by
  unfold FrameBitmap.markUsed
  dsimp only
  split_ifs <;> rfl

theorem mark_range_base (bitmap : FrameBitmap) (first n : Nat) :
    (bitmap.markRange first n).memBase = bitmap.memBase := by
  induction n with
  | zero => rfl
  | succ n ih => rw [mark_range_succ, mark_used_base, ih]

theorem free_frames_base (bitmap : FrameBitmap) (first n : Nat) :
    (freeFrames bitmap first n).memBase = bitmap.memBase := by
  induction n with
  | zero => rfl
  | succ n ih =>
      rw [free_frames_succ]
      rcases free_one_cases (freeFrames bitmap first n) (first + n) with ⟨_, freed⟩ | ⟨_, freed⟩
      · rw [freed]
        exact ih
      · rw [freed]
        exact ih

structure PageSupply (image : KernelImage) where
  bitmap : FrameBitmap
  aligned : bitmap.memBase % pageSize = 0
  representable : bitmap.memBase + bitmap.totalFrames * pageSize ≤ 2 ^ 52
  imageMarked : ∀ frame, frame < bitmap.totalFrames →
    image.Has (bitmap.memBase / pageSize + frame) → bitmap.isUsed frame = true

namespace PageSupply

variable {image : KernelImage}

def InUse (supply : PageSupply image) (frame : Nat) : Prop :=
  ∃ bit, bit < supply.bitmap.totalFrames ∧
    frame = supply.bitmap.memBase / pageSize + bit ∧ supply.bitmap.isUsed bit = true

def mark (supply : PageSupply image) (first n : Nat) : PageSupply image where
  bitmap := supply.bitmap.markRange first n
  aligned := by
    rw [mark_range_base]
    exact supply.aligned
  representable := by
    rw [mark_range_base, mark_range_total]
    exact supply.representable
  imageMarked := by
    intro frame inside has
    rw [mark_range_base] at has
    rw [mark_range_total] at inside
    exact (mark_range_test _ _ _ _).mpr (.inr (supply.imageMarked frame inside has))

/-- `alloc_pages` once the bitmap is ready. -/
def allocPages (supply : PageSupply image) (pages : Nat) : Option (Nat × PageSupply image) :=
  match (supply.bitmap.allocFrames pages).2 with
  | some first => some (supply.bitmap.frameToAddr first, supply.mark first pages)
  | none => none

theorem alloc_pages_spec {supply after : PageSupply image} {pages address : Nat}
    (allocated : supply.allocPages pages = some (address, after)) :
    ∃ first, address = supply.bitmap.memBase + first * pageSize ∧ after = supply.mark first pages ∧
      first + pages ≤ supply.bitmap.totalFrames ∧
      ∀ i, i < pages → supply.bitmap.isUsed (first + i) = false := by
  unfold allocPages at allocated
  cases found : (supply.bitmap.allocFrames pages).2 with
  | none =>
      rw [found] at allocated
      cases allocated
  | some first =>
      rw [found] at allocated
      cases allocated
      exact ⟨first, rfl, rfl, alloc_frames_found found⟩

theorem frame_number (supply : PageSupply image) (first i : Nat) :
    (supply.bitmap.memBase + first * pageSize) / pageSize + i =
      supply.bitmap.memBase / pageSize + (first + i) := by
  simp only [pageSize]
  omega

def pageAllocator (image : KernelImage) : PageAllocator image (PageSupply image) where
  alloc := allocPages
  InUse := InUse
  aligned := by
    intro supply pages address after allocated
    obtain ⟨first, rfl, _⟩ := alloc_pages_spec allocated
    have aligned := supply.aligned
    simp only [pageSize] at aligned ⊢
    omega
  representable := by
    intro supply pages address after allocated
    obtain ⟨first, rfl, _, inside, _⟩ := alloc_pages_spec allocated
    have bound := supply.representable
    simp only [pageSize] at bound ⊢
    omega
  unused := by
    intro supply pages address after allocated i within
    obtain ⟨first, rfl, _, inside, clear⟩ := alloc_pages_spec allocated
    have free := clear i within
    rw [frame_number]
    constructor
    · rintro ⟨bit, _, same, used⟩
      obtain rfl : bit = first + i := by omega
      rw [free] at used
      cases used
    · intro has
      rw [supply.imageMarked (first + i) (by omega) has] at free
      cases free
  taken := by
    intro supply pages address after allocated i within
    obtain ⟨first, rfl, rfl, inside, _⟩ := alloc_pages_spec allocated
    refine ⟨first + i, ?_, ?_, ?_⟩
    · simp only [mark, mark_range_total]
      omega
    · simp only [mark, mark_range_base]
      exact frame_number supply first i
    · exact (mark_range_test _ _ _ _).mpr (.inl (by omega))
  kept := by
    rintro supply pages address after allocated frame ⟨bit, inside, rfl, used⟩
    obtain ⟨first, rfl, rfl, _⟩ := alloc_pages_spec allocated
    refine ⟨bit, ?_, ?_, ?_⟩
    · simp only [mark, mark_range_total]
      exact inside
    · simp only [mark, mark_range_base]
    · exact (mark_range_test _ _ _ _).mpr (.inr used)

end PageSupply

end Ferrugem.BitmapPages
