import Ferrugem.BitmapPages

/-!
# The frame search is first-fit

`alloc_frames` against the naive specification: the smallest start at which the
frames are clear, or nothing if there is none. The counter of free frames
follows the bits.
-/

namespace Ferrugem.FirstFitFrames

open Ferrugem.FrameBitmapModel Ferrugem.FrameOwnership Ferrugem.BitmapPages

set_option autoImplicit false

def IsFirstFit (bitmap : FrameBitmap) (n start : Nat) : Prop :=
  Fits bitmap n start ∧ ∀ other, Fits bitmap n other → start ≤ other

/-- The frames are marked, no other bit changes, and the counter drops by their
number. -/
structure Takes (bitmap : FrameBitmap) (n start : Nat) (after : FrameBitmap) : Prop where
  bits : ∀ frame, after.isUsed frame = true ↔
    (start ≤ frame ∧ frame < start + n) ∨ bitmap.isUsed frame = true
  total : after.totalFrames = bitmap.totalFrames
  base : after.memBase = bitmap.memBase
  count : after.freeFrames + n = bitmap.freeFrames
  counted : Counted after

structure SearchesFirstFit (bitmap : FrameBitmap) (n : Nat) (result : FrameBitmap × Option Nat) :
    Prop where
  found : ∀ start, result.2 = some start ↔ IsFirstFit bitmap n start
  exhausted : result.2 = none ↔ ∀ start, ¬Fits bitmap n start
  takes : ∀ start, result.2 = some start → Takes bitmap n start result.1
  unchanged : result.2 = none → result.1 = bitmap

theorem mark_range_clear {bitmap : FrameBitmap} {first n : Nat} (fits : Fits bitmap n first) :
    (bitmap.markRange first n).clearFrames + n = bitmap.clearFrames := by
  obtain ⟨inside, clear⟩ := fits
  induction n with
  | zero => rfl
  | succ n ih =>
      have before := ih (by omega) fun i below => clear i (by omega)
      have still : (bitmap.markRange first n).isUsed (first + n) = false := by
        rw [← Bool.not_eq_true, mark_range_test, clear n (Nat.lt_succ_self n)]
        simp
      have total := mark_range_total bitmap first n
      have within : first + n < (bitmap.markRange first n).totalFrames := by omega
      have last := PackedBits.clear_below_set within still
      rw [mark_range_succ]
      rcases mark_used_cases (bitmap.markRange first n) (first + n) with ⟨-, marked⟩ | ⟨used, -⟩
      · rw [marked]
        unfold FrameBitmap.clearFrames at before ⊢
        dsimp only
        omega
      · rw [still] at used
        cases used

theorem mark_range_free {bitmap : FrameBitmap} {first n : Nat} (counted : Counted bitmap)
    (fits : Fits bitmap n first) :
    (bitmap.markRange first n).freeFrames + n = bitmap.freeFrames := by
  have after : Counted (bitmap.markRange first n) := mark_range_counted counted fits.1
  unfold Counted at counted after
  rw [after, counted]
  exact mark_range_clear fits

theorem mark_range_takes {bitmap : FrameBitmap} {first n : Nat} (counted : Counted bitmap)
    (fits : Fits bitmap n first) : Takes bitmap n first (bitmap.markRange first n) where
  bits := mark_range_test bitmap first n
  total := mark_range_total bitmap first n
  base := mark_range_base bitmap first n
  count := mark_range_free counted fits
  counted := mark_range_counted counted fits.1

theorem first_fit_unique {bitmap : FrameBitmap} {n start other : Nat}
    (first : IsFirstFit bitmap n start) (second : IsFirstFit bitmap n other) : start = other :=
  Nat.le_antisymm (first.2 other second.1) (second.2 start first.1)

/-- For every bitmap whose counter is right: `alloc_frames` returns the first fit
and takes it, and fails only if there is none. -/
theorem alloc_frames_first_fit (bitmap : FrameBitmap) (counted : Counted bitmap) {n : Nat}
    (positive : 1 ≤ n) : SearchesFirstFit bitmap n (bitmap.allocFrames n) := by
  have outcome := alloc_frames_case bitmap positive
  generalize bitmap.allocFrames n = result at outcome
  cases outcome with
  | @found start fits first =>
      refine ⟨?_, ?_, ?_, nofun⟩
      · intro other
        constructor
        · rintro ⟨⟩
          exact ⟨fits, first⟩
        · intro isFirst
          exact congrArg some (first_fit_unique ⟨fits, first⟩ isFirst)
      · exact ⟨nofun, fun none => absurd fits (none start)⟩
      · rintro _ ⟨⟩
        exact mark_range_takes counted fits
  | exhausted full =>
      refine ⟨?_, ?_, nofun, fun _ => rfl⟩
      · intro other
        exact ⟨nofun, fun isFirst => absurd isFirst.1 (full other)⟩
      · exact ⟨fun _ => full, fun _ => rfl⟩

/-- 130 frames: a full word, then a clear frame before a used one. -/
def raggedBitmap : FrameBitmap where
  words := fun word => if word = 0 then BitVec.allOnes 64 else if word = 1 then 2#64 else 0#64
  memBase := 0x100000
  totalFrames := 130
  freeFrames := 65
  bounded := by decide

/-- The run of three frames starts after the used one; 64 frames do not fit. -/
theorem ragged_first_fit :
    (raggedBitmap.allocFrames 3).2 = some 66 ∧ (raggedBitmap.allocFrames 65).2 = none ∧
      SearchesFirstFit raggedBitmap 3 (raggedBitmap.allocFrames 3) ∧
      SearchesFirstFit raggedBitmap 65 (raggedBitmap.allocFrames 65) := by
  have counted : Counted raggedBitmap := by
    unfold Counted FrameBitmap.clearFrames
    decide +kernel
  exact ⟨by decide +kernel, by decide +kernel,
    alloc_frames_first_fit raggedBitmap counted (by decide),
    alloc_frames_first_fit raggedBitmap counted (by decide)⟩

end Ferrugem.FirstFitFrames
