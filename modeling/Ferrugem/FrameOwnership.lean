import Ferrugem.Library.EventSystem
import Ferrugem.FrameBitmapModel

/-!
# Who owns a physical frame

The search of `alloc_frames` is first fit: it returns the lowest start at which
enough clear frames follow each other, with or without its skip over full
words. From this, after any history of allocations and releases, every frame
has at most one owner, the bits say exactly which frames have one, and
`FREE_FRAMES` counts the others.
-/

namespace Ferrugem.FrameOwnership

open Ferrugem.FrameBitmapModel

set_option autoImplicit false

/-- `FREE_FRAMES` is the number of clear bits below `TOTAL_FRAMES`. -/
def Counted (bitmap : FrameBitmap) : Prop := bitmap.freeFrames = bitmap.clearFrames

theorem mark_used_cases (bitmap : FrameBitmap) (frame : Nat) :
    bitmap.isUsed frame = false ∧ bitmap.markUsed frame =
        { bitmap with
          words := PackedBits.set bitmap.words frame
          freeFrames := bitmap.freeFrames - 1 } ∨
      bitmap.isUsed frame = true ∧ bitmap.markUsed frame = bitmap := by
  have masked := PackedBits.masked_eq_zero_iff bitmap.words frame
  unfold FrameBitmap.markUsed FrameBitmap.isUsed
  dsimp only
  split_ifs with unset
  · exact .inl ⟨masked.mp unset, rfl⟩
  · refine .inr ⟨?_, rfl⟩
    by_contra clear
    exact unset (masked.mpr (by simpa using clear))

theorem mark_used_total (bitmap : FrameBitmap) (frame : Nat) :
    (bitmap.markUsed frame).totalFrames = bitmap.totalFrames := by
  rcases mark_used_cases bitmap frame with ⟨-, marked⟩ | ⟨-, marked⟩
  · rw [marked]
  · rw [marked]

theorem mark_used_test (bitmap : FrameBitmap) (frame other : Nat) :
    (bitmap.markUsed frame).isUsed other = true ↔ other = frame ∨ bitmap.isUsed other = true := by
  rcases mark_used_cases bitmap frame with ⟨-, marked⟩ | ⟨used, marked⟩
  · rw [marked]
    simp only [FrameBitmap.isUsed, PackedBits.test_set]
    by_cases same : other = frame
    · simp [same]
    · simp [same]
  · rw [marked]
    constructor
    · exact .inr
    · rintro (rfl | already)
      · exact used
      · exact already

theorem mark_used_counted {bitmap : FrameBitmap} {frame : Nat} (counted : Counted bitmap)
    (inside : frame < bitmap.totalFrames) : Counted (bitmap.markUsed frame) := by
  rcases mark_used_cases bitmap frame with ⟨unused, marked⟩ | ⟨-, marked⟩
  · rw [marked]
    have dropped := PackedBits.clear_below_set inside unused
    simp only [Counted, FrameBitmap.clearFrames] at counted ⊢
    omega
  · rw [marked]
    exact counted

theorem mark_range_succ (bitmap : FrameBitmap) (first n : Nat) :
    bitmap.markRange first (n + 1) = (bitmap.markRange first n).markUsed (first + n) := by
  simp [FrameBitmap.markRange, List.range_succ]

theorem mark_range_total (bitmap : FrameBitmap) (first n : Nat) :
    (bitmap.markRange first n).totalFrames = bitmap.totalFrames := by
  induction n with
  | zero => rfl
  | succ n ih => rw [mark_range_succ, mark_used_total, ih]

theorem mark_range_test (bitmap : FrameBitmap) (first n frame : Nat) :
    (bitmap.markRange first n).isUsed frame = true ↔
      (first ≤ frame ∧ frame < first + n) ∨ bitmap.isUsed frame = true := by
  induction n with
  | zero => simp [FrameBitmap.markRange]
  | succ n ih =>
      rw [mark_range_succ, mark_used_test, ih]
      constructor
      · rintro (last | earlier | already)
        · exact .inl (by omega)
        · exact .inl (by omega)
        · exact .inr already
      · rintro (within | already)
        · by_cases last : frame = first + n
          · exact .inl last
          · exact .inr (.inl (by omega))
        · exact .inr (.inr already)

theorem mark_range_counted {bitmap : FrameBitmap} {first n : Nat} (counted : Counted bitmap)
    (inside : first + n ≤ bitmap.totalFrames) : Counted (bitmap.markRange first n) := by
  induction n with
  | zero => exact counted
  | succ n ih =>
      rw [mark_range_succ]
      apply mark_used_counted (ih (by omega))
      rw [mark_range_total]
      omega

theorem free_one_cases (bitmap : FrameBitmap) (frame : Nat) :
    (frame < bitmap.totalFrames ∧ bitmap.isUsed frame = true) ∧ bitmap.freeOne frame =
        { bitmap with
          words := PackedBits.clear bitmap.words frame
          freeFrames := bitmap.freeFrames + 1 } ∨
      (frame < bitmap.totalFrames → bitmap.isUsed frame = false) ∧
        bitmap.freeOne frame = bitmap := by
  have masked := PackedBits.masked_eq_zero_iff bitmap.words frame
  unfold FrameBitmap.freeOne FrameBitmap.isUsed
  dsimp only
  split_ifs with inside used
  · refine .inl ⟨⟨inside, ?_⟩, rfl⟩
    by_contra clear
    exact used (masked.mpr (by simpa using clear))
  · exact .inr ⟨fun _ => masked.mp (not_not.mp used), rfl⟩
  · exact .inr ⟨fun below => absurd below inside, rfl⟩

theorem free_one_total (bitmap : FrameBitmap) (frame : Nat) :
    (bitmap.freeOne frame).totalFrames = bitmap.totalFrames := by
  rcases free_one_cases bitmap frame with ⟨-, freed⟩ | ⟨-, freed⟩
  · rw [freed]
  · rw [freed]

theorem free_one_test {bitmap : FrameBitmap} {frame : Nat} (inside : frame < bitmap.totalFrames)
    (other : Nat) :
    (bitmap.freeOne frame).isUsed other = true ↔
      other ≠ frame ∧ bitmap.isUsed other = true := by
  rcases free_one_cases bitmap frame with ⟨-, freed⟩ | ⟨unused, freed⟩
  · rw [freed]
    simp only [FrameBitmap.isUsed, PackedBits.test_clear]
    by_cases same : other = frame
    · simp [same]
    · simp [same]
  · rw [freed]
    constructor
    · intro used
      refine ⟨?_, used⟩
      rintro rfl
      rw [unused inside] at used
      cases used
    · exact And.right

theorem free_one_counted {bitmap : FrameBitmap} {frame : Nat} (counted : Counted bitmap) :
    Counted (bitmap.freeOne frame) := by
  rcases free_one_cases bitmap frame with ⟨⟨inside, used⟩, freed⟩ | ⟨-, freed⟩
  · rw [freed]
    have grown := PackedBits.clear_below_clear inside used
    simp only [Counted, FrameBitmap.clearFrames] at counted ⊢
    omega
  · rw [freed]
    exact counted

theorem free_frames_succ (bitmap : FrameBitmap) (first n : Nat) :
    freeFrames bitmap first (n + 1) = (freeFrames bitmap first n).freeOne (first + n) := by
  simp [freeFrames, List.range_succ]

theorem free_frames_total (bitmap : FrameBitmap) (first n : Nat) :
    (freeFrames bitmap first n).totalFrames = bitmap.totalFrames := by
  induction n with
  | zero => rfl
  | succ n ih => rw [free_frames_succ, free_one_total, ih]

theorem free_frames_test {bitmap : FrameBitmap} {first n : Nat}
    (inside : first + n ≤ bitmap.totalFrames) (frame : Nat) :
    (freeFrames bitmap first n).isUsed frame = true ↔
      ¬(first ≤ frame ∧ frame < first + n) ∧ bitmap.isUsed frame = true := by
  induction n with
  | zero => simp [freeFrames]
  | succ n ih =>
      rw [free_frames_succ, free_one_test (by rw [free_frames_total]; omega), ih (by omega)]
      constructor
      · rintro ⟨other, outside, used⟩
        exact ⟨by omega, used⟩
      · rintro ⟨outside, used⟩
        exact ⟨by omega, by omega, used⟩

theorem free_frames_keeps {bitmap : FrameBitmap} {first n frame : Nat}
    (used : bitmap.isUsed frame = true) (outside : ¬(first ≤ frame ∧ frame < first + n)) :
    (freeFrames bitmap first n).isUsed frame = true := by
  induction n with
  | zero => exact used
  | succ n ih =>
      have before := ih (by omega)
      rw [free_frames_succ]
      by_cases inside : first + n < (freeFrames bitmap first n).totalFrames
      · exact (free_one_test inside frame).mpr ⟨by omega, before⟩
      · rcases free_one_cases (freeFrames bitmap first n) (first + n) with ⟨⟨bound, _⟩, _⟩ | ⟨_, same⟩
        · exact absurd bound inside
        · rw [same]
          exact before

theorem free_frames_counted {bitmap : FrameBitmap} {first n : Nat} (counted : Counted bitmap) :
    Counted (freeFrames bitmap first n) := by
  induction n with
  | zero => exact counted
  | succ n ih =>
      rw [free_frames_succ]
      exact free_one_counted ih

/-- A start at which `n` clear frames follow each other. -/
def Fits (bitmap : FrameBitmap) (n start : Nat) : Prop :=
  start + n ≤ bitmap.totalFrames ∧ ∀ i, i < n → bitmap.isUsed (start + i) = false

theorem fits_clear {bitmap : FrameBitmap} {n start frame : Nat} (fits : Fits bitmap n start)
    (low : start ≤ frame) (high : frame < start + n) : bitmap.isUsed frame = false := by
  have clear := fits.2 (frame - start) (by omega)
  rwa [Nat.add_sub_cancel' low] at clear

/-- The loop invariant: the last `runLen` frames before `f` are clear, and no
start before them fits. -/
structure Scanned (bitmap : FrameBitmap) (n runStart runLen f : Nat) : Prop where
  shorter : runLen < n
  before : runLen ≤ f
  start : runLen ≠ 0 → runStart = f - runLen
  clear : ∀ frame, f - runLen ≤ frame → frame < f → bitmap.isUsed frame = false
  earlier : ∀ start, Fits bitmap n start → f - runLen ≤ start

theorem scanned_start {bitmap : FrameBitmap} {n runStart runLen f : Nat}
    (scanned : Scanned bitmap n runStart runLen f) :
    (if runLen = 0 then f else runStart) = f - runLen := by
  split_ifs with empty
  · omega
  · exact scanned.start empty

theorem scanned_skip {bitmap : FrameBitmap} {n runStart runLen f : Nat}
    (scanned : Scanned bitmap n runStart runLen f)
    (full : bitmap.words (f / 64) = BitVec.allOnes 64) :
    Scanned bitmap n ((f / 64 + 1) * 64) 0 ((f / 64 + 1) * 64) where
  shorter := by
    have shorter := scanned.shorter
    omega
  before := Nat.zero_le _
  start := fun none => absurd rfl none
  clear := by
    intro frame low high
    omega
  earlier := by
    intro start fits
    have later := scanned.earlier start fits
    have shorter := scanned.shorter
    by_contra inside
    have clear := @fits_clear bitmap n start (max start f) fits (by omega) (by omega)
    have used : bitmap.isUsed (max start f) = true := by
      apply PackedBits.test_of_full
      rw [show max start f / 64 = f / 64 by omega]
      exact full
    rw [used] at clear
    cases clear

theorem scanned_used {bitmap : FrameBitmap} {n runStart runLen f : Nat}
    (scanned : Scanned bitmap n runStart runLen f) (used : bitmap.isUsed f = true) :
    Scanned bitmap n runStart 0 (f + 1) where
  shorter := by
    have shorter := scanned.shorter
    omega
  before := Nat.zero_le _
  start := fun none => absurd rfl none
  clear := by
    intro frame low high
    omega
  earlier := by
    intro start fits
    have later := scanned.earlier start fits
    have shorter := scanned.shorter
    by_contra inside
    have clear := @fits_clear bitmap n start f fits (by omega) (by omega)
    rw [used] at clear
    cases clear

theorem scanned_clear {bitmap : FrameBitmap} {n runStart runLen f : Nat}
    (scanned : Scanned bitmap n runStart runLen f) (clear : bitmap.isUsed f = false)
    (more : runLen + 1 ≠ n) :
    Scanned bitmap n (if runLen = 0 then f else runStart) (runLen + 1) (f + 1) where
  shorter := by
    have shorter := scanned.shorter
    omega
  before := by
    have before := scanned.before
    omega
  start := by
    intro _
    rw [scanned_start scanned]
    omega
  clear := by
    intro frame low high
    by_cases last : frame = f
    · rw [last]
      exact clear
    · exact scanned.clear frame (by omega) (by omega)
  earlier := by
    intro start fits
    have later := scanned.earlier start fits
    omega

theorem scanned_over {bitmap : FrameBitmap} {n runStart runLen f : Nat}
    (scanned : Scanned bitmap n runStart runLen f) (past : bitmap.totalFrames ≤ f)
    (start : Nat) : ¬Fits bitmap n start := by
  intro fits
  have later := scanned.earlier start fits
  have bound := fits.1
  have shorter := scanned.shorter
  have before := scanned.before
  omega

theorem scanned_fits {bitmap : FrameBitmap} {n runStart runLen f : Nat}
    (scanned : Scanned bitmap n runStart runLen f) (going : f < bitmap.totalFrames)
    (clear : bitmap.isUsed f = false) (enough : runLen + 1 = n) :
    Fits bitmap n (if runLen = 0 then f else runStart) := by
  have before := scanned.before
  rw [scanned_start scanned]
  constructor
  · omega
  · intro i inside
    by_cases last : f - runLen + i = f
    · rw [last]
      exact clear
    · exact scanned.clear _ (by omega) (by omega)

structure FirstFit (bitmap : FrameBitmap) (n : Nat) (result : Option Nat) : Prop where
  fits : ∀ start, result = some start → Fits bitmap n start
  first : ∀ start, result = some start → ∀ other, Fits bitmap n other → start ≤ other
  complete : result = none → ∀ start, ¬Fits bitmap n start

theorem first_fit_none {bitmap : FrameBitmap} {n : Nat}
    (none : ∀ start, ¬Fits bitmap n start) : FirstFit bitmap n Option.none where
  fits := by
    intro start found
    cases found
  first := by
    intro start found
    cases found
  complete := fun _ => none

theorem first_fit_some {bitmap : FrameBitmap} {n start : Nat} (fits : Fits bitmap n start)
    (first : ∀ other, Fits bitmap n other → start ≤ other) :
    FirstFit bitmap n (some start) where
  fits := by
    intro found same
    cases same
    exact fits
  first := by
    intro found same
    cases same
    exact first
  complete := by
    intro none
    cases none

theorem scan_first_fit {bitmap : FrameBitmap} {n fuel runStart runLen f : Nat}
    (scanned : Scanned bitmap n runStart runLen f) (enough : bitmap.totalFrames ≤ f + fuel) :
    FirstFit bitmap n (bitmap.scan n fuel runStart runLen f) := by
  induction fuel generalizing runStart runLen f with
  | zero => exact first_fit_none (scanned_over scanned (by omega))
  | succ fuel ih =>
      have masked := PackedBits.masked_eq_zero_iff bitmap.words f
      simp only [FrameBitmap.scan]
      by_cases going : f < bitmap.totalFrames
      · rw [if_pos going]
        by_cases full : bitmap.words (f / 64) = BitVec.allOnes 64
        · rw [if_pos full]
          apply ih (scanned_skip scanned full)
          omega
        · rw [if_neg full]
          by_cases unset : bitmap.words (f / 64) &&& 1#64 <<< (f % 64) = 0#64
          · rw [if_pos unset]
            have clear := masked.mp unset
            by_cases done : runLen + 1 = n
            · rw [if_pos done]
              apply first_fit_some (scanned_fits scanned going clear done)
              rw [scanned_start scanned]
              exact scanned.earlier
            · rw [if_neg done]
              apply ih (scanned_clear scanned clear done)
              omega
          · rw [if_neg unset]
            have used : bitmap.isUsed f = true := by
              by_contra clear
              exact unset (masked.mpr (Bool.not_eq_true _ ▸ clear))
            apply ih (scanned_used scanned used)
            omega
      · rw [if_neg going]
        exact first_fit_none (scanned_over scanned (by omega))

theorem scanned_init (bitmap : FrameBitmap) {n : Nat} (positive : 0 < n) :
    Scanned bitmap n 0 0 0 where
  shorter := positive
  before := Nat.zero_le _
  start := fun _ => rfl
  clear := by
    intro frame _ high
    omega
  earlier := fun start _ => Nat.zero_le start

/-- The specification of `alloc_frames`. -/
inductive AllocCase (bitmap : FrameBitmap) (n : Nat) : FrameBitmap × Option Nat → Prop where
  | found {start : Nat} (fits : Fits bitmap n start)
      (first : ∀ other, Fits bitmap n other → start ≤ other) :
      AllocCase bitmap n (bitmap.markRange start n, some start)
  | exhausted (full : ∀ start, ¬Fits bitmap n start) : AllocCase bitmap n (bitmap, none)

theorem alloc_frames_case (bitmap : FrameBitmap) {n : Nat} (positive : 0 < n) :
    AllocCase bitmap n (bitmap.allocFrames n) := by
  have search := @scan_first_fit bitmap n bitmap.totalFrames 0 0 0
    (scanned_init bitmap positive) (by omega)
  unfold FrameBitmap.allocFrames
  rw [if_neg (by omega)]
  cases result : bitmap.scan n bitmap.totalFrames 0 0 0 with
  | some start => exact .found (search.fits start result) (search.first start result)
  | none => exact .exhausted (search.complete result)

/-- The frames that `alloc_frames` returns, also for no frames. -/
theorem alloc_frames_found {bitmap : FrameBitmap} {n first : Nat}
    (found : (bitmap.allocFrames n).2 = some first) :
    first + n ≤ bitmap.totalFrames ∧ ∀ i, i < n → bitmap.isUsed (first + i) = false := by
  by_cases empty : n = 0
  · subst empty
    cases found
    exact ⟨Nat.zero_le _, fun i low => absurd low (Nat.not_lt_zero i)⟩
  · have outcome := alloc_frames_case bitmap (Nat.pos_of_ne_zero empty)
    generalize bitmap.allocFrames n = result at outcome found
    cases outcome with
    | exhausted _ => cases found
    | found fits _ =>
        cases found
        exact fits

structure FrameRange where
  first : Nat
  count : Nat
  deriving DecidableEq

def FrameRange.Has (range : FrameRange) (frame : Nat) : Prop :=
  range.first ≤ frame ∧ frame < range.first + range.count

/-- The allocator with the allocations its callers have not returned yet. -/
structure FrameHistory where
  bitmap : FrameBitmap
  outstanding : List FrameRange

inductive FrameCall where
  | alloc (n : Nat) (positive : 0 < n)
  | free (position : Nat)

/-- A caller releases one of the outstanding allocations, in any order. -/
def FrameHistory.step (history : FrameHistory) : FrameCall → FrameHistory × Option Nat
  | .alloc n _ =>
      match history.bitmap.allocFrames n with
      | (bitmap, some first) =>
          ({ bitmap := bitmap
             outstanding := { first := first, count := n } :: history.outstanding }, some first)
      | (bitmap, none) => ({ history with bitmap := bitmap }, none)
  | .free position =>
      match history.outstanding[position]? with
      | some range =>
          ({ bitmap := freeFrames history.bitmap range.first range.count
             outstanding := history.outstanding.eraseIdx position }, none)
      | none => (history, none)

def frameSystem (target : Target) (map : MemoryMap) (kernelEnd : Nat) :
    EventSystem FrameHistory FrameCall Nat where
  init := { bitmap := initFromMmap target map kernelEnd, outstanding := [] }
  step := FrameHistory.step

/-- The frames of the kernel image that `init_from_mmap` marks: the first ones
of the region it selects. -/
def imageFrames (target : Target) (map : MemoryMap) (kernelEnd : Nat) : Nat :=
  match map.largestUsable target.minBase with
  | some region => usedFrames region kernelEnd
  | none => 0

/-- Every frame has at most one owner, the bits say which frames have one, and
the counter counts the others. -/
structure FramesOwned (image : Nat) (history : FrameHistory) : Prop where
  disjoint : history.outstanding.Pairwise fun range other =>
    ∀ frame, range.Has frame → ¬other.Has frame
  inside : ∀ range ∈ history.outstanding, ∀ frame, range.Has frame →
    frame < history.bitmap.totalFrames ∧ ¬frame < image
  bits : ∀ frame, history.bitmap.isUsed frame = true ↔
    frame < image ∨ ∃ range ∈ history.outstanding, range.Has frame
  counted : history.bitmap.freeFrames = history.bitmap.clearFrames

theorem used_frames_iff {region : MemoryRegion} {kernelEnd : Nat}
    (representable : kernelEnd + 4095 < 2 ^ 64) (frame : Nat) :
    frame < usedFrames region kernelEnd ↔
      frame < (regionFrames region).totalFrames ∧
        (regionFrames region).frameToAddr frame < kernelEnd := by
  simp only [usedFrames, FrameBitmap.frameToAddr, frameSize]
  change _ ↔ frame < (regionFrames region).totalFrames ∧ region.base + frame * 4096 < kernelEnd
  split_ifs with above
  · rw [Nat.mod_eq_of_lt (by omega), Nat.lt_min, Nat.lt_div_iff_mul_lt (by decide)]
    omega
  · omega

theorem image_frames_inside (target : Target) (map : MemoryMap) (kernelEnd : Nat) :
    imageFrames target map kernelEnd ≤ (initFromMmap target map kernelEnd).totalFrames := by
  unfold imageFrames initFromMmap
  cases map.largestUsable target.minBase with
  | none => exact Nat.zero_le _
  | some region =>
      rw [mark_range_total]
      simp only [usedFrames]
      split_ifs
      · exact Nat.min_le_right _ _
      · exact Nat.zero_le _

theorem unmarked_counted {bitmap : FrameBitmap} (words : bitmap.words = fun _ => 0#64)
    (free : bitmap.freeFrames = bitmap.totalFrames) : Counted bitmap := by
  unfold Counted FrameBitmap.clearFrames
  rw [words, free, PackedBits.clear_below_zero]

theorem frames_owned_init (target : Target) (map : MemoryMap) (kernelEnd : Nat) :
    FramesOwned (imageFrames target map kernelEnd) (frameSystem target map kernelEnd).init := by
  have inside := image_frames_inside target map kernelEnd
  have unmarked (bitmap : FrameBitmap) (words : bitmap.words = fun _ => 0#64) (frame : Nat) :
      bitmap.isUsed frame = false := by
    simp [FrameBitmap.isUsed, PackedBits.test, words]
  simp only [frameSystem]
  unfold imageFrames initFromMmap at *
  cases found : map.largestUsable target.minBase with
  | none =>
      constructor
      · exact .nil
      · intro range member
        cases member
      · simp [unmarked (initFallback target) rfl]
      · exact unmarked_counted rfl rfl
  | some region =>
      simp only [found, mark_range_total] at inside
      constructor
      · exact .nil
      · intro range member
        cases member
      · intro frame
        simp [mark_range_test, unmarked (regionFrames region) rfl]
      · apply mark_range_counted (unmarked_counted rfl rfl)
        omega

theorem frames_owned_alloc {image : Nat} {history : FrameHistory} {n start : Nat}
    (owned : FramesOwned image history) (fits : Fits history.bitmap n start) :
    FramesOwned image
      { bitmap := history.bitmap.markRange start n
        outstanding := { first := start, count := n } :: history.outstanding } := by
  have unowned (frame : Nat) (within : FrameRange.Has { first := start, count := n } frame) :
      ¬(frame < image ∨ ∃ range ∈ history.outstanding, range.Has frame) := by
    rw [← owned.bits frame, fits_clear fits within.1 within.2]
    simp
  constructor
  · apply List.Pairwise.cons _ owned.disjoint
    intro other member frame within held
    exact unowned frame within (.inr ⟨other, member, held⟩)
  · intro range member frame within
    dsimp only
    rw [mark_range_total]
    rcases List.mem_cons.mp member with rfl | earlier
    · have bound := fits.1
      refine ⟨?_, fun low => unowned frame within (.inl low)⟩
      have high := within.2
      dsimp only at high
      omega
    · exact owned.inside range earlier frame within
  · intro frame
    dsimp only
    rw [mark_range_test, owned.bits]
    constructor
    · rintro (within | low | ⟨range, member, held⟩)
      · exact .inr ⟨_, List.mem_cons_self, within⟩
      · exact .inl low
      · exact .inr ⟨range, List.mem_cons_of_mem _ member, held⟩
    · rintro (low | ⟨range, member, held⟩)
      · exact .inr (.inl low)
      · rcases List.mem_cons.mp member with rfl | earlier
        · exact .inl held
        · exact .inr (.inr ⟨range, earlier, held⟩)
  · exact mark_range_counted owned.counted fits.1

theorem frames_owned_release {image : Nat} {bitmap : FrameBitmap} {range : FrameRange}
    {others : List FrameRange}
    (owned : FramesOwned image { bitmap := bitmap, outstanding := range :: others }) :
    FramesOwned image
      { bitmap := freeFrames bitmap range.first range.count, outstanding := others } := by
  obtain ⟨apart, disjoint⟩ := List.pairwise_cons.mp owned.disjoint
  have within := owned.inside range List.mem_cons_self
  have bound : range.first + range.count ≤ bitmap.totalFrames ∨ range.count = 0 := by
    by_cases empty : range.count = 0
    · exact .inr empty
    · have last := (within (range.first + range.count - 1) ⟨by omega, by omega⟩).1
      dsimp only at last
      exact .inl (by omega)
  have bits (frame : Nat) : (freeFrames bitmap range.first range.count).isUsed frame = true ↔
      ¬range.Has frame ∧ bitmap.isUsed frame = true := by
    rcases bound with bound | empty
    · exact free_frames_test bound frame
    · have none : ¬range.Has frame := by
        rintro ⟨low, high⟩
        omega
      rw [empty]
      simp [freeFrames, none]
  constructor
  · exact disjoint
  · intro other member frame held
    dsimp only
    rw [free_frames_total]
    exact owned.inside other (List.mem_cons_of_mem _ member) frame held
  · intro frame
    dsimp only
    rw [bits, owned.bits]
    constructor
    · rintro ⟨released, low | ⟨other, member, held⟩⟩
      · exact .inl low
      · rcases List.mem_cons.mp member with rfl | later
        · exact absurd held released
        · exact .inr ⟨other, later, held⟩
    · rintro (low | ⟨other, member, held⟩)
      · exact ⟨fun mine => (within frame mine).2 low, .inl low⟩
      · exact ⟨fun mine => apart other member frame mine held,
          .inr ⟨other, List.mem_cons_of_mem _ member, held⟩⟩
  · exact free_frames_counted owned.counted

theorem frames_owned_perm {image : Nat} {bitmap : FrameBitmap} {before after : List FrameRange}
    (owned : FramesOwned image { bitmap := bitmap, outstanding := before })
    (same : before.Perm after) :
    FramesOwned image { bitmap := bitmap, outstanding := after } where
  disjoint := by
    apply owned.disjoint.perm same
    intro range other apart frame held mine
    exact apart frame mine held
  inside := fun range member => owned.inside range (same.mem_iff.mpr member)
  bits := by
    intro frame
    rw [owned.bits frame]
    simp only [same.mem_iff]
  counted := owned.counted

theorem frames_owned_step (image : Nat) (history : FrameHistory) (call : FrameCall)
    (owned : FramesOwned image history) : FramesOwned image (history.step call).1 := by
  cases call with
  | alloc n positive =>
      have outcome := alloc_frames_case history.bitmap positive
      simp only [FrameHistory.step]
      generalize history.bitmap.allocFrames n = result at outcome ⊢
      cases outcome with
      | found fits first => exact frames_owned_alloc owned fits
      | exhausted full => exact owned
  | free position =>
      simp only [FrameHistory.step]
      cases found : history.outstanding[position]? with
      | none => exact owned
      | some range =>
          obtain ⟨bound, rfl⟩ := List.getElem?_eq_some_iff.mp found
          apply frames_owned_release
          exact frames_owned_perm owned (List.getElem_cons_eraseIdx_perm bound).symm

/-- After any history of allocations and releases, frames are owned at most
once and the allocator knows which. -/
theorem frames_owned (target : Target) (map : MemoryMap) (kernelEnd : Nat)
    (calls : List FrameCall) :
    FramesOwned (imageFrames target map kernelEnd)
      ((frameSystem target map kernelEnd).runFrom (frameSystem target map kernelEnd).init
        calls) :=
  EventSystem.run_keeps (FramesOwned (imageFrames target map kernelEnd))
    (frames_owned_step _) calls (frames_owned_init target map kernelEnd)

end Ferrugem.FrameOwnership
