import Ferrugem.BitmapPages

/-!
# The pages handed out after boot

`memory::init` takes the frames from one region of the memory map and marks those
that the kernel image occupies. A page that `alloc_pages` returns from then on is
aligned, lies in usable memory and avoids the image as long as such a region
exists and begins at a page boundary. Without one the fallback hands out a fixed
range and marks nothing, and `alloc_pages(0)` returns the first frame of the
region whether or not the image lies there.
-/

namespace Ferrugem.BootPages

open Ferrugem.FrameBitmapModel Ferrugem.FrameOwnership Ferrugem.BitmapPages

set_option autoImplicit false

/-- The addresses of the kernel image; `stop` is `_kernel_end`. -/
structure ImageRange where
  start : Nat
  stop : Nat
  nonempty : start < stop
  representable : stop < 2 ^ 64

def afterCalls (target : Target) (map : MemoryMap) (kernelEnd : Nat) (calls : List FrameCall) :
    FrameHistory :=
  (frameSystem target map kernelEnd).runFrom (frameSystem target map kernelEnd).init calls

/-- `alloc_pages` once `BITMAP_READY` is set. -/
def allocPages (bitmap : FrameBitmap) (pages : Nat) : Option Nat :=
  (bitmap.allocFrames pages).2.map bitmap.frameToAddr

/-- The page at the address is one that the kernel may use. -/
structure Legitimate (map : MemoryMap) (image : ImageRange) (address : Nat) : Prop where
  aligned : address % frameSize = 0
  usable : ∃ region ∈ map.regions, region.kind = .usable ∧ region.base ≤ address ∧
    address + frameSize ≤ region.stop
  apart : address + frameSize ≤ image.start ∨ image.stop ≤ address

/-- After any allocations and releases, a call of `alloc_pages` returns the address
of legitimate pages: those that it allocates, or the one at the address if it
allocates none. -/
def HandsOutLegitimate (target : Target) (map : MemoryMap) (image : ImageRange) (pages : Nat) :
    Prop :=
  ∀ calls address, allocPages (afterCalls target map image.stop calls).bitmap pages = some address →
    ∀ i, i < max pages 1 → Legitimate map image (address + i * frameSize)

/-- What the map, the image and the number of pages must be like. In each case the
first alternative is that no allocation of that many pages succeeds. -/
def BootsWell (target : Target) (map : MemoryMap) (image : ImageRange) (pages : Nat) : Prop :=
  match map.largestUsable target.minBase with
  | none => 0 < pages ∧ target.fallbackSize / frameSize < pages
  | some region =>
      (0 < pages ∧ (regionFrames region).totalFrames < usedFrames region image.stop + pages) ∨
        region.base % frameSize = 0 ∧
          if pages = 0 then
            frameSize ≤ region.size ∧
              (region.base + frameSize ≤ image.start ∨ image.stop ≤ region.base)
          else
            image.stop - region.base + 4095 < 2 ^ 64 ∨
              region.base + (regionFrames region).totalFrames * frameSize ≤ image.start

/-- The part of a usable region from `minBase` on, as large as any. -/
structure Trimmed (regions : List MemoryRegion) (minBase : Nat) (chosen : MemoryRegion) :
    Prop where
  above : minBase ≤ chosen.base
  source : ∃ region ∈ regions, region.kind = .usable ∧ region.base ≤ chosen.base ∧
    chosen.base + chosen.size = region.stop
  largest : ∀ region ∈ regions, region.kind = .usable →
    region.stop - max region.base minBase ≤ chosen.size

/-- No usable region reaches beyond `minBase`. -/
def NoneAbove (regions : List MemoryRegion) (minBase : Nat) : Prop :=
  ∀ region ∈ regions, region.kind = .usable → region.stop ≤ max region.base minBase

inductive LargestCase (regions : List MemoryRegion) (minBase : Nat) : Option MemoryRegion → Prop where
  | found {chosen : MemoryRegion} (trimmed : Trimmed regions minBase chosen) :
      LargestCase regions minBase (some chosen)
  | missing (below : NoneAbove regions minBase) : LargestCase regions minBase none

theorem trimmed_append {regions : List MemoryRegion} {minBase : Nat} {chosen : MemoryRegion}
    (region : MemoryRegion) (trimmed : Trimmed regions minBase chosen)
    (smaller : region.kind = .usable → region.stop - max region.base minBase ≤ chosen.size) :
    Trimmed (regions ++ [region]) minBase chosen where
  above := trimmed.above
  source := by
    obtain ⟨source, member, rest⟩ := trimmed.source
    exact ⟨source, List.mem_append_left _ member, rest⟩
  largest := by
    intro other member usable
    rcases List.mem_append.mp member with earlier | last
    · exact trimmed.largest other earlier usable
    · rw [List.mem_singleton.mp last] at usable ⊢
      exact smaller usable

theorem largest_case_append {regions : List MemoryRegion} {minBase : Nat}
    {best : Option MemoryRegion} (region : MemoryRegion)
    (before : LargestCase regions minBase best) :
    LargestCase (regions ++ [region]) minBase (MemoryMap.considerRegion minBase best region) := by
  have skipped (unused : region.kind = .usable → region.stop ≤ max region.base minBase) :
      LargestCase (regions ++ [region]) minBase best := by
    cases before with
    | found trimmed =>
        refine .found (trimmed_append region trimmed ?_)
        intro usable
        have empty := unused usable
        omega
    | missing below =>
        refine .missing ?_
        intro other member usable
        rcases List.mem_append.mp member with earlier | last
        · exact below other earlier usable
        · rw [List.mem_singleton.mp last] at usable ⊢
          exact unused usable
  have base : (if region.base < minBase then minBase else region.base) =
      max region.base minBase := by
    split_ifs <;> omega
  unfold MemoryMap.considerRegion
  dsimp only
  rw [base]
  split_ifs with reserved empty larger
  · exact skipped fun usable => absurd usable reserved
  · exact skipped fun _ => empty
  · refine .found ⟨by dsimp only; omega, ⟨region, by simp, not_not.mp reserved, ?_, ?_⟩, ?_⟩
    · dsimp only
      omega
    · dsimp only
      omega
    · intro other member usable
      dsimp only
      rcases List.mem_append.mp member with earlier | last
      · cases before with
        | found trimmed =>
            have bound := trimmed.largest other earlier usable
            simp only [Option.all_some, decide_eq_true_eq] at larger
            omega
        | missing below =>
            have bound := below other earlier usable
            omega
      · rw [List.mem_singleton.mp last]
  · cases before with
    | found trimmed =>
        refine .found (trimmed_append region trimmed ?_)
        intro _
        simp only [Option.all_some, decide_eq_true_eq] at larger
        omega
    | missing below => exact absurd rfl larger

theorem largest_usable_case (map : MemoryMap) (minBase : Nat) :
    LargestCase map.regions minBase (map.largestUsable minBase) := by
  unfold MemoryMap.largestUsable
  induction map.regions using List.reverseRecOn with
  | nil =>
      refine .missing ?_
      intro region member
      cases member
  | append_singleton regions region ih =>
      rw [List.foldl_append]
      exact largest_case_append region ih

structure SameFrames (boot bitmap : FrameBitmap) : Prop where
  base : bitmap.memBase = boot.memBase
  total : bitmap.totalFrames = boot.totalFrames

theorem same_frames_step (boot : FrameBitmap) (history : FrameHistory) (call : FrameCall)
    (same : SameFrames boot history.bitmap) : SameFrames boot (history.step call).1.bitmap := by
  cases call with
  | alloc n positive =>
      have outcome := alloc_frames_case history.bitmap positive
      simp only [FrameHistory.step]
      generalize history.bitmap.allocFrames n = result at outcome ⊢
      cases outcome with
      | found fits first =>
          exact ⟨(mark_range_base _ _ _).trans same.base, (mark_range_total _ _ _).trans same.total⟩
      | exhausted full => exact same
  | free position =>
      simp only [FrameHistory.step]
      cases history.outstanding[position]? with
      | none => exact same
      | some range =>
          exact ⟨(free_frames_base _ _ _).trans same.base,
            (free_frames_total _ _ _).trans same.total⟩

theorem alloc_after_used {bitmap : FrameBitmap} {n bound : Nat} (positive : 0 < n)
    (used : ∀ frame, bitmap.isUsed frame = true ↔ frame < bound)
    (room : bound + n ≤ bitmap.totalFrames) :
    bitmap.allocFrames n = (bitmap.markRange bound n, some bound) := by
  have outcome := alloc_frames_case bitmap positive
  have fits : Fits bitmap n bound := by
    refine ⟨room, ?_⟩
    intro i _
    rw [Bool.eq_false_iff, Ne, used]
    omega
  generalize bitmap.allocFrames n = result at outcome
  cases outcome with
  | exhausted full => exact absurd fits (full bound)
  | @found start here first =>
      have clear := fits_clear here (Nat.le_refl start) (by omega)
      have low := first bound fits
      rw [Bool.eq_false_iff, Ne, used] at clear
      obtain rfl : start = bound := by omega
      rfl

section

variable (target : Target) (map : MemoryMap) (kernelEnd : Nat)

theorem after_calls_frames (calls : List FrameCall) :
    SameFrames (initFromMmap target map kernelEnd)
      (afterCalls target map kernelEnd calls).bitmap :=
  EventSystem.run_keeps
    (fun history : FrameHistory => SameFrames (initFromMmap target map kernelEnd) history.bitmap)
    (same_frames_step _) calls ⟨rfl, rfl⟩

variable {target map kernelEnd}

/-- An address that `alloc_pages` returns is that of frames behind the image. -/
theorem returned_frames {calls : List FrameCall} {pages address : Nat} (positive : 0 < pages)
    (returned : allocPages (afterCalls target map kernelEnd calls).bitmap pages = some address) :
    ∃ first, address = (initFromMmap target map kernelEnd).frameToAddr first ∧
      imageFrames target map kernelEnd ≤ first ∧
      first + pages ≤ (initFromMmap target map kernelEnd).totalFrames := by
  have same := after_calls_frames target map kernelEnd calls
  have owned := frames_owned target map kernelEnd calls
  have outcome := alloc_frames_case (afterCalls target map kernelEnd calls).bitmap positive
  obtain ⟨first, found, rfl⟩ := Option.map_eq_some_iff.mp returned
  generalize FrameBitmap.allocFrames _ _ = result at outcome found
  cases outcome with
  | exhausted full => cases found
  | @found start fits _ =>
      cases found
      refine ⟨first, ?_, ?_, ?_⟩
      · unfold FrameBitmap.frameToAddr
        rw [same.base]
      · by_contra low
        have used := (owned.bits first).mpr (.inl (by omega))
        have clear := fits_clear fits (Nat.le_refl first) (by omega)
        unfold afterCalls at clear
        rw [used] at clear
        cases clear
      · rw [← same.total]
        exact fits.1

theorem single_frames_used {k : Nat}
    (room : imageFrames target map kernelEnd + k ≤
      (initFromMmap target map kernelEnd).totalFrames) (frame : Nat) :
    (afterCalls target map kernelEnd (List.replicate k (.alloc 1 Nat.one_pos))).bitmap.isUsed
      frame = true ↔ frame < imageFrames target map kernelEnd + k := by
  induction k generalizing frame with
  | zero =>
      have owned := frames_owned_init target map kernelEnd
      rw [show afterCalls target map kernelEnd (List.replicate 0 _) =
        (frameSystem target map kernelEnd).init from rfl, owned.bits frame]
      simp [frameSystem]
  | succ k ih =>
      have same := after_calls_frames target map kernelEnd
        (List.replicate k (.alloc 1 Nat.one_pos))
      have taken := alloc_after_used Nat.one_pos (ih (by omega)) (by rw [same.total]; omega)
      have stepped : (afterCalls target map kernelEnd
          (List.replicate (k + 1) (.alloc 1 Nat.one_pos))).bitmap =
            (afterCalls target map kernelEnd
              (List.replicate k (.alloc 1 Nat.one_pos))).bitmap.markRange
                (imageFrames target map kernelEnd + k) 1 := by
        unfold afterCalls at taken ⊢
        rw [List.replicate_succ', EventSystem.run_from_append]
        simp only [EventSystem.runFrom, frameSystem, FrameHistory.step] at taken ⊢
        rw [taken]
      rw [stepped, mark_range_test, ih (by omega)]
      omega

theorem frames_returned {pages first : Nat} (positive : 0 < pages)
    (low : imageFrames target map kernelEnd ≤ first)
    (high : first + pages ≤ (initFromMmap target map kernelEnd).totalFrames) :
    ∃ calls, allocPages (afterCalls target map kernelEnd calls).bitmap pages =
      some ((initFromMmap target map kernelEnd).frameToAddr first) := by
  let calls := List.replicate (first - imageFrames target map kernelEnd)
    (FrameCall.alloc 1 Nat.one_pos)
  have same := after_calls_frames target map kernelEnd calls
  have used := @single_frames_used target map kernelEnd
    (first - imageFrames target map kernelEnd) (by omega)
  rw [Nat.add_sub_cancel' low] at used
  have taken := alloc_after_used positive used (by rw [same.total]; exact high)
  refine ⟨calls, ?_⟩
  unfold allocPages
  rw [taken, Option.map_some]
  unfold FrameBitmap.frameToAddr
  rw [same.base]

theorem zero_pages_returned (calls : List FrameCall) :
    allocPages (afterCalls target map kernelEnd calls).bitmap 0 =
      some (initFromMmap target map kernelEnd).memBase := by
  have same := after_calls_frames target map kernelEnd calls
  unfold allocPages FrameBitmap.allocFrames FrameBitmap.frameToAddr
  simp [same.base]

end

section

variable {map : MemoryMap} {image : ImageRange} {minBase : Nat} {region : MemoryRegion}

theorem trimmed_usable (trimmed : Trimmed map.regions minBase region) {address : Nat}
    (low : region.base ≤ address) (high : address + frameSize ≤ region.base + region.size) :
    ∃ source ∈ map.regions, source.kind = .usable ∧ source.base ≤ address ∧
      address + frameSize ≤ source.stop := by
  obtain ⟨source, member, usable, base, stop⟩ := trimmed.source
  exact ⟨source, member, usable, by omega, by omega⟩

/-- The first page of the region is usable only if the region holds it: no other
region is larger. -/
theorem trimmed_first_page (trimmed : Trimmed map.regions minBase region)
    (legitimate : Legitimate map image region.base) : frameSize ≤ region.size := by
  obtain ⟨source, member, usable, base, stop⟩ := legitimate.usable
  have bound := trimmed.largest source member usable
  have above := trimmed.above
  omega

/-- Without a usable region no page from `minBase` on is legitimate. -/
theorem none_above_illegitimate (below : NoneAbove map.regions minBase) {address : Nat}
    (high : minBase ≤ address) : ¬Legitimate map image address := by
  intro legitimate
  obtain ⟨region, member, usable, base, stop⟩ := legitimate.usable
  have reached := below region member usable
  unfold frameSize at stop
  omega

/-- The frames behind the marked ones avoid the image, unless the sum that counts
the marked ones wraps. -/
theorem unmarked_apart {frame : Nat}
    (low : usedFrames region image.stop ≤ frame)
    (high : frame < (regionFrames region).totalFrames)
    (within : image.stop - region.base + 4095 < 2 ^ 64 ∨
      region.base + (regionFrames region).totalFrames * frameSize ≤ image.start) :
    region.base + frame * frameSize + frameSize ≤ image.start ∨
      image.stop ≤ region.base + frame * frameSize := by
  rcases within with whole | below
  · right
    unfold usedFrames at low
    unfold frameSize at low ⊢
    split_ifs at low with inside
    · rw [Nat.mod_eq_of_lt whole] at low
      omega
    · omega
  · left
    have behind : (frame + 1) * frameSize ≤ (regionFrames region).totalFrames * frameSize :=
      Nat.mul_le_mul_right frameSize high
    rw [Nat.add_mul] at behind
    omega

theorem frames_inside {frame : Nat} (high : frame < (regionFrames region).totalFrames) :
    region.base + frame * frameSize + frameSize ≤ region.base + region.size := by
  unfold regionFrames at high
  unfold frameSize at *
  dsimp only at high
  omega

end

/-- The frame counter behind an image that ends at the top of the address space
wraps to 0. -/
theorem used_frames_wrapped {region : MemoryRegion} {image : ImageRange}
    (wraps : ¬image.stop - region.base + 4095 < 2 ^ 64) : usedFrames region image.stop = 0 := by
  have bound := image.representable
  unfold usedFrames frameSize
  split_ifs
  · have low : (image.stop - region.base + 4095) % 2 ^ 64 < 4096 := by omega
    rw [Nat.div_eq_of_lt low]
    exact Nat.zero_min _
  · rfl

section

variable {target : Target} {map : MemoryMap} {image : ImageRange} {pages : Nat}

theorem fallback_legitimate_iff
    (missing : map.largestUsable target.minBase = none) :
    HandsOutLegitimate target map image pages ↔
      0 < pages ∧ target.fallbackSize / frameSize < pages := by
  have noneAbove : NoneAbove map.regions target.minBase := by
    have found := largest_usable_case map target.minBase
    rw [missing] at found
    cases found with
    | missing noneAbove => exact noneAbove
  have frames : initFromMmap target map image.stop = initFallback target := by
    rw [initFromMmap, missing]
  have marked : imageFrames target map image.stop = 0 := by
    rw [imageFrames, missing]
  have illegitimate := @none_above_illegitimate map image _ noneAbove _ (Nat.le_refl _)
  constructor
  · intro legitimate
    by_contra enough
    rw [not_and_or, Nat.not_lt, Nat.not_lt] at enough
    apply illegitimate
    by_cases none : pages = 0
    · have first := legitimate [] _ (by rw [none]; exact zero_pages_returned []) 0 (by omega)
      rw [frames] at first
      simpa [initFallback] using first
    · obtain ⟨calls, returned⟩ := @frames_returned target map image.stop pages 0 (by omega)
        (by omega) (by rw [frames]; simp only [initFallback]; omega)
      have first := legitimate calls _ returned 0 (by omega)
      rw [frames] at first
      simpa [initFallback, FrameBitmap.frameToAddr] using first
  · rintro ⟨positive, short⟩ calls address returned
    obtain ⟨first, _, _, high⟩ := returned_frames positive returned
    rw [frames] at high
    simp only [initFallback] at high
    omega

theorem no_pages_legitimate_iff {region : MemoryRegion}
    (trimmed : Trimmed map.regions target.minBase region)
    (base : (initFromMmap target map image.stop).memBase = region.base) :
    HandsOutLegitimate target map image 0 ↔
      region.base % frameSize = 0 ∧ frameSize ≤ region.size ∧
        (region.base + frameSize ≤ image.start ∨ image.stop ≤ region.base) := by
  constructor
  · intro legitimate
    have first := legitimate [] _ (zero_pages_returned []) 0 Nat.one_pos
    rw [base, Nat.zero_mul, Nat.add_zero] at first
    exact ⟨first.aligned, trimmed_first_page trimmed first, first.apart⟩
  · rintro ⟨aligned, large, apart⟩ calls address returned i bound
    rw [zero_pages_returned, base] at returned
    obtain rfl : region.base = address := Option.some.inj returned
    obtain rfl : i = 0 := by omega
    rw [Nat.zero_mul, Nat.add_zero]
    exact ⟨aligned, trimmed_usable trimmed (Nat.le_refl _) (by omega), apart⟩

theorem some_pages_legitimate_iff {region : MemoryRegion}
    (trimmed : Trimmed map.regions target.minBase region)
    (base : (initFromMmap target map image.stop).memBase = region.base)
    (total : (initFromMmap target map image.stop).totalFrames = (regionFrames region).totalFrames)
    (marked : imageFrames target map image.stop = usedFrames region image.stop)
    (positive : 0 < pages) (room : usedFrames region image.stop + pages ≤
      (regionFrames region).totalFrames) :
    HandsOutLegitimate target map image pages ↔
      region.base % frameSize = 0 ∧ (image.stop - region.base + 4095 < 2 ^ 64 ∨
        region.base + (regionFrames region).totalFrames * frameSize ≤ image.start) := by
  constructor
  · intro legitimate
    have returned (first : Nat) (low : usedFrames region image.stop ≤ first)
        (high : first + pages ≤ (regionFrames region).totalFrames) (i : Nat) (bound : i < pages) :
        Legitimate map image (region.base + (first + i) * frameSize) := by
      obtain ⟨calls, returned⟩ := @frames_returned target map image.stop pages first positive
        (by rw [marked]; exact low) (by rw [total]; exact high)
      have page := legitimate calls _ returned i (by omega)
      unfold FrameBitmap.frameToAddr at page
      rwa [base, Nat.add_assoc, ← Nat.add_mul] at page
    constructor
    · have aligned := (returned _ (Nat.le_refl _) room 0 positive).aligned
      unfold frameSize at aligned ⊢
      omega
    · by_contra outside
      push Not at outside
      have none := @used_frames_wrapped region image (by omega)
      have last := (returned ((regionFrames region).totalFrames - pages) (by omega) (by omega)
        (pages - 1) (by omega)).apart
      have place : (regionFrames region).totalFrames - pages + (pages - 1) + 1 =
          (regionFrames region).totalFrames := by omega
      have few := (regionFrames region).bounded
      unfold maxFrames at few
      unfold frameSize at *
      omega
  · rintro ⟨aligned, within⟩ calls address returned i bound
    obtain ⟨first, rfl, low, high⟩ := returned_frames positive returned
    rw [marked] at low
    rw [total] at high
    unfold FrameBitmap.frameToAddr
    rw [base, Nat.add_assoc, ← Nat.add_mul]
    have inside : first + i < (regionFrames region).totalFrames := by omega
    have apart := unmarked_apart (by omega) inside within
    have whole := frames_inside inside
    refine ⟨?_, trimmed_usable trimmed (by omega) whole, apart⟩
    unfold frameSize at aligned ⊢
    omega

theorem region_legitimate_iff {region : MemoryRegion}
    (chosen : map.largestUsable target.minBase = some region) :
    HandsOutLegitimate target map image pages ↔
      (0 < pages ∧ (regionFrames region).totalFrames < usedFrames region image.stop + pages) ∨
        region.base % frameSize = 0 ∧
          if pages = 0 then
            frameSize ≤ region.size ∧
              (region.base + frameSize ≤ image.start ∨ image.stop ≤ region.base)
          else
            image.stop - region.base + 4095 < 2 ^ 64 ∨
              region.base + (regionFrames region).totalFrames * frameSize ≤ image.start := by
  have trimmed : Trimmed map.regions target.minBase region := by
    have found := largest_usable_case map target.minBase
    rw [chosen] at found
    cases found with
    | found trimmed => exact trimmed
  have base : (initFromMmap target map image.stop).memBase = region.base := by
    rw [initFromMmap, chosen]
    exact mark_range_base _ _ _
  have total : (initFromMmap target map image.stop).totalFrames =
      (regionFrames region).totalFrames := by
    rw [initFromMmap, chosen]
    exact mark_range_total _ _ _
  have marked : imageFrames target map image.stop = usedFrames region image.stop := by
    rw [imageFrames, chosen]
  by_cases none : pages = 0
  · subst none
    rw [if_pos rfl, no_pages_legitimate_iff trimmed base]
    simp
  · rw [if_neg none]
    by_cases room : usedFrames region image.stop + pages ≤ (regionFrames region).totalFrames
    · rw [some_pages_legitimate_iff trimmed base total marked (by omega) room]
      constructor
      · exact .inr
      · rintro (short | well)
        · omega
        · exact well
    · constructor
      · intro _
        exact .inl (by omega)
      · intro _ calls address returned
        obtain ⟨first, _, low, high⟩ := returned_frames (by omega) returned
        omega

end

/-- The pages returned after boot are legitimate if and only if the map, the image
and the number of pages are as `BootsWell` says. -/
theorem hands_out_legitimate_iff (target : Target) (map : MemoryMap) (image : ImageRange)
    (pages : Nat) :
    HandsOutLegitimate target map image pages ↔ BootsWell target map image pages := by
  unfold BootsWell
  cases chosen : map.largestUsable target.minBase with
  | none => exact fallback_legitimate_iff chosen
  | some region => exact region_legitimate_iff chosen

/-- An image of one megabyte where the x86-64 kernel is loaded. -/
def x86Image : ImageRange where
  start := 0x100000
  stop := 0x200000
  nonempty := by decide
  representable := by decide

/-- With an empty memory map the first page handed out is the first page of the
image. -/
theorem fallback_hands_out_image :
    allocPages (afterCalls Target.x86_64 MemoryMap.empty x86Image.stop []).bitmap 1 =
        some x86Image.start ∧
      ¬HandsOutLegitimate Target.x86_64 MemoryMap.empty x86Image 1 := by
  have returned : allocPages (afterCalls Target.x86_64 MemoryMap.empty x86Image.stop []).bitmap 1 =
      some x86Image.start := by
    decide +kernel
  refine ⟨returned, ?_⟩
  intro legitimate
  have apart := (legitimate [] _ returned 0 (by decide)).apart
  revert apart
  decide

end Ferrugem.BootPages
