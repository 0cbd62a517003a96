import Ferrugem.Library.PackedBits

/-!
# The memory map and the physical frame bitmap

`kernel/src/memory/mmap.rs` and `kernel/src/memory/bitmap.rs`. A `usize` is a
natural number; where the source's arithmetic could wrap, the model says so.
`BITMAP` is a family of words; the accesses stay below `MAX_FRAMES / 64`
because `TOTAL_FRAMES` is at most `MAX_FRAMES`, which the state carries.
-/

namespace Ferrugem.FrameBitmapModel

set_option autoImplicit false

def maxRegions : Nat := 32

def usizeMax : Nat := 2 ^ 64 - 1

inductive RegionKind where
  | usable
  | reserved
  deriving DecidableEq

structure MemoryRegion where
  base : Nat
  size : Nat
  kind : RegionKind
  deriving DecidableEq

/-- `MemoryRegion::end`, a saturating sum. -/
def MemoryRegion.stop (region : MemoryRegion) : Nat := min (region.base + region.size) usizeMax

structure MemoryMap where
  regions : List MemoryRegion
  bounded : regions.length ≤ maxRegions

namespace MemoryMap

def empty : MemoryMap where
  regions := []
  bounded := Nat.zero_le _

def add (map : MemoryMap) (base size : Nat) (kind : RegionKind) : MemoryMap :=
  if room : 0 < size ∧ map.regions.length < maxRegions then
    { regions := map.regions ++ [{ base := base, size := size, kind := kind }]
      bounded := by
        rw [List.length_append, List.length_singleton]
        exact room.2 }
  else map

/-- A call of `add` for each region. -/
def addAll (map : MemoryMap) (regions : List MemoryRegion) : MemoryMap :=
  regions.foldl (fun map region => map.add region.base region.size region.kind) map

theorem add_all_append (map : MemoryMap) (regions more : List MemoryRegion) :
    (map.addAll regions).addAll more = map.addAll (regions ++ more) :=
  (List.foldl_append).symm

theorem add_all_regions (map : MemoryMap) (regions : List MemoryRegion) :
    (map.addAll regions).regions =
      (map.regions ++ regions.filter fun region => 0 < region.size).take maxRegions := by
  induction regions generalizing map with
  | nil =>
      rw [List.filter_nil, List.append_nil, List.take_of_length_le map.bounded]
      rfl
  | cons region rest ih =>
      change ((map.add region.base region.size region.kind).addAll rest).regions = _
      rw [ih, add, List.filter_cons]
      by_cases sized : 0 < region.size
      · rw [if_pos (decide_eq_true sized)]
        by_cases room : map.regions.length < maxRegions
        · rw [dif_pos ⟨sized, room⟩]
          exact congrArg (List.take maxRegions) (List.append_cons _ _ _).symm
        · have full : map.regions.length = maxRegions := by
            have bounded := map.bounded
            omega
          rw [dif_neg fun both => room both.2, ← full, List.take_left, List.take_left]
      · rw [dif_neg fun both => sized both.1, if_neg (by simpa using sized)]

/-- One iteration of `largest_usable`. -/
def considerRegion (minBase : Nat) (best : Option MemoryRegion) (region : MemoryRegion) :
    Option MemoryRegion :=
  if region.kind ≠ .usable then best
  else
    let base := if region.base < minBase then minBase else region.base
    if region.stop ≤ base then best
    else
      let size := region.stop - base
      if best.all fun chosen => chosen.size < size then
        some { base := base, size := size, kind := .usable }
      else best

def largestUsable (map : MemoryMap) (minBase : Nat) : Option MemoryRegion :=
  map.regions.foldl (considerRegion minBase) none

end MemoryMap

def maxFrames : Nat := 2 ^ 20

def frameSize : Nat := 4096

structure FrameBitmap where
  words : Nat → BitVec 64
  memBase : Nat
  totalFrames : Nat
  freeFrames : Nat
  bounded : totalFrames ≤ maxFrames

namespace FrameBitmap

def isUsed (bitmap : FrameBitmap) (frame : Nat) : Bool := PackedBits.test bitmap.words frame

/-- The bits that are clear below `TOTAL_FRAMES`. -/
def clearFrames (bitmap : FrameBitmap) : Nat :=
  PackedBits.clearBelow bitmap.words bitmap.totalFrames

def markUsed (bitmap : FrameBitmap) (frame : Nat) : FrameBitmap :=
  let word := frame / 64
  let bit := frame % 64
  if bitmap.words word &&& (1#64 <<< bit) = 0#64 then
    { bitmap with
      words := Function.update bitmap.words word (bitmap.words word ||| 1#64 <<< bit)
      freeFrames := bitmap.freeFrames - 1 }
  else bitmap

/-- `for i in 0..n { mark_used(first + i) }`. -/
def markRange (bitmap : FrameBitmap) (first n : Nat) : FrameBitmap :=
  (List.range n).foldl (fun marked i => marked.markUsed (first + i)) bitmap

/-- The `while` loop of `alloc_frames`. Each iteration moves `f` forward, so
`TOTAL_FRAMES` of them are enough to leave the loop. -/
def scan (bitmap : FrameBitmap) (n : Nat) : Nat → Nat → Nat → Nat → Option Nat
  | 0, _, _, _ => none
  | fuel + 1, runStart, runLen, f =>
      if f < bitmap.totalFrames then
        let word := f / 64
        if bitmap.words word = BitVec.allOnes 64 then
          scan bitmap n fuel ((word + 1) * 64) 0 ((word + 1) * 64)
        else if bitmap.words word &&& (1#64 <<< (f % 64)) = 0#64 then
          let runStart := if runLen = 0 then f else runStart
          let runLen := runLen + 1
          if runLen = n then some runStart
          else scan bitmap n fuel runStart runLen (f + 1)
        else scan bitmap n fuel runStart 0 (f + 1)
      else none

def allocFrames (bitmap : FrameBitmap) (n : Nat) : FrameBitmap × Option Nat :=
  if n = 0 then (bitmap, some 0)
  else
    match bitmap.scan n bitmap.totalFrames 0 0 0 with
    | some runStart => (bitmap.markRange runStart n, some runStart)
    | none => (bitmap, none)

/-- One iteration of `free_frames`. -/
def freeOne (bitmap : FrameBitmap) (frame : Nat) : FrameBitmap :=
  if frame < bitmap.totalFrames then
    let word := frame / 64
    let bit := frame % 64
    if bitmap.words word &&& (1#64 <<< bit) ≠ 0#64 then
      { bitmap with
        words := Function.update bitmap.words word (bitmap.words word &&& ~~~(1#64 <<< bit))
        freeFrames := bitmap.freeFrames + 1 }
    else bitmap
  else bitmap

def frameToAddr (bitmap : FrameBitmap) (frame : Nat) : Nat := bitmap.memBase + frame * frameSize

end FrameBitmap

def freeFrames (bitmap : FrameBitmap) (first n : Nat) : FrameBitmap :=
  (List.range n).foldl (fun freed i => freed.freeOne (first + i)) bitmap

/-- What the source selects by target and board: `min_base`, which is also the
fallback base, and the fallback size. -/
structure Target where
  minBase : Nat
  fallbackSize : Nat
  fits : fallbackSize / frameSize ≤ maxFrames

def Target.x86_64 : Target where
  minBase := 0x100000
  fallbackSize := 127 * 1024 * 1024
  fits := by decide

def Target.riscv64 : Target where
  minBase := 0x80000000
  fallbackSize := 128 * 1024 * 1024
  fits := by decide

/-- aarch64 on the QEMU `virt` board. -/
def Target.qemuVirtAarch64 : Target where
  minBase := 0x40000000
  fallbackSize := 128 * 1024 * 1024
  fits := by decide

def Target.raspberryPi3 : Target where
  minBase := 0
  fallbackSize := 128 * 1024 * 1024
  fits := by decide

def initFallback (target : Target) : FrameBitmap where
  words := fun _ => 0#64
  memBase := target.minBase
  totalFrames := target.fallbackSize / frameSize
  freeFrames := target.fallbackSize / frameSize
  bounded := target.fits

/-- The frames of a region before the kernel image is marked. -/
def regionFrames (region : MemoryRegion) : FrameBitmap where
  words := fun _ => 0#64
  memBase := region.base
  totalFrames := min (region.size / frameSize) maxFrames
  freeFrames := min (region.size / frameSize) maxFrames
  bounded := Nat.min_le_right _ _

/-- `used_frames`, or none if the image ends below the region. -/
def usedFrames (region : MemoryRegion) (kernelEnd : Nat) : Nat :=
  if region.base < kernelEnd then
    min ((kernelEnd - region.base + 4095) % 2 ^ 64 / frameSize) (regionFrames region).totalFrames
  else 0

def initFromMmap (target : Target) (map : MemoryMap) (kernelEnd : Nat) : FrameBitmap :=
  match map.largestUsable target.minBase with
  | some region => (regionFrames region).markRange 0 (usedFrames region kernelEnd)
  | none => initFallback target

end Ferrugem.FrameBitmapModel
