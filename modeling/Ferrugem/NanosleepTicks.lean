import Mathlib.Algebra.Group.Int.Defs
import Mathlib.Algebra.Group.Nat.Defs
import Mathlib.Order.Monotone.Basic
import Mathlib.Tactic.SplitIfs

/-!
# How long `nanosleep` sleeps

The request is counted in 10 ms ticks by wrapping `u64` arithmetic and a
division that rounds down, and the wake-up time is the tick counter plus that
count, wrapping again. The counter is read once for the wake-up time and then
before every `schedule()`, so all the rest of the machine does to a sleeper is
to choose how many ticks have passed at each reading. A call may return before
the requested time exactly when the request is no whole number of ticks or its
wake-up time does not fit in the counter.
-/

namespace Ferrugem.NanosleepTicks

set_option autoImplicit false

/-- Both fields are `i64`. -/
structure TimeSpec where
  tvSec : BitVec 64
  tvNsec : BitVec 64
  deriving DecidableEq

/-- The ticks that have passed at each reading of `TICK_COUNT`, counted from
the first one. -/
structure Clock where
  elapsed : Nat → Nat
  start : elapsed 0 = 0
  monotone : Monotone elapsed

namespace Clock

def tickCount (clock : Clock) (first : BitVec 64) (reading : Nat) : BitVec 64 :=
  first + BitVec.ofNat 64 (clock.elapsed reading)

@[simp] theorem tick_count_start (clock : Clock) (first : BitVec 64) :
    clock.tickCount first 0 = first := by
  simp [tickCount, clock.start]

def stopped : Clock where
  elapsed _ := 0
  start := rfl
  monotone := monotone_const

/-- The first `schedule()`, or the time before it, takes that many ticks. -/
def jumping (ticks : Nat) : Clock where
  elapsed reading := if reading = 0 then 0 else ticks
  start := rfl
  monotone := by
    intro earlier later order
    dsimp only
    split_ifs <;> omega

end Clock

/-- The loop of `sleep_ticks` for at most `turns` readings, and the ticks that
have passed when it is left. -/
def sleepUntil (clock : Clock) (first wakeAt : BitVec 64) : Nat → Nat → Option Nat
  | 0, _ => none
  | turns + 1, reading =>
      if clock.tickCount first reading < wakeAt then
        sleepUntil clock first wakeAt turns (reading + 1)
      else some (clock.elapsed reading)

def sleepTicks (clock : Clock) (first ticks : BitVec 64) (turns : Nat) : Option Nat :=
  let wakeAt := clock.tickCount first 0 + ticks
  sleepUntil clock first wakeAt turns 1

namespace TimeSpec

/-- `(secs as u64) * 100 + (nsecs / 10_000_000) as u64` -/
def ticks (req : TimeSpec) : BitVec 64 :=
  req.tvSec * 100 + req.tvNsec / 10000000

def Accepted (req : TimeSpec) : Prop :=
  0 ≤ req.tvSec.toInt ∧ 0 ≤ req.tvNsec.toInt ∧ req.tvNsec.toInt < 1000000000

instance (req : TimeSpec) : Decidable req.Accepted :=
  inferInstanceAs (Decidable (_ ∧ _ ∧ _))

def requested (req : TimeSpec) : Int :=
  req.tvSec.toInt * 1000000000 + req.tvNsec.toInt

def WholeTicks (req : TimeSpec) : Prop :=
  req.tvNsec.toInt % 10000000 = 0

/-- The wake-up time of the request fits in the counter. -/
def WakeTimeFits (req : TimeSpec) (tickCount : BitVec 64) : Prop :=
  tickCount.toNat + (req.tvSec.toInt * 100 + req.tvNsec.toInt / 10000000) < 2 ^ 64

end TimeSpec

/-- The returned value, and the ticks that have passed during the call; `none`
is a call that has not returned after `turns` readings. -/
def sysNanosleep (clock : Clock) (tickCount : BitVec 64) (req : Option TimeSpec) (turns : Nat) :
    Option (Int × Nat) :=
  match req with
  | none => some (-14, 0)
  | some req =>
      let secs := req.tvSec
      let nsecs := req.tvNsec
      if secs.toInt < 0 ∨ nsecs.toInt < 0 ∨ 1000000000 ≤ nsecs.toInt then some (-22, 0)
      else
        if 0 < req.ticks then
          (sleepTicks clock tickCount req.ticks turns).map fun elapsed => (0, elapsed)
        else some (0, 0)

/-- The call returns only once the requested time has passed. -/
def NeverEarly (req : TimeSpec) (tickCount : BitVec 64) : Prop :=
  ∀ (clock : Clock) (turns : Nat) (value : Int) (elapsed : Nat),
    sysNanosleep clock tickCount (some req) turns = some (value, elapsed) →
      req.requested ≤ elapsed * 10000000

theorem sleep_until_some (clock : Clock) (first wakeAt : BitVec 64) (elapsed turns : Nat) :
    ∀ reading, sleepUntil clock first wakeAt turns reading = some elapsed ↔
      ∃ last, reading ≤ last ∧ last < reading + turns ∧
        (∀ earlier, reading ≤ earlier → earlier < last →
          clock.tickCount first earlier < wakeAt) ∧
        wakeAt ≤ clock.tickCount first last ∧ clock.elapsed last = elapsed := by
  induction turns with
  | zero =>
      intro reading
      constructor
      · intro returned
        cases returned
      · rintro ⟨last, low, high, -⟩
        omega
  | succ turns ih =>
      intro reading
      rw [sleepUntil]
      split_ifs with early
      · rw [ih]
        constructor
        · rintro ⟨last, low, high, before, reached⟩
          refine ⟨last, by omega, by omega, ?_, reached⟩
          intro earlier atLeast below
          by_cases same : earlier = reading
          · rw [same]
            exact early
          · exact before earlier (by omega) below
        · rintro ⟨last, low, high, before, reached, count⟩
          have later : reading ≠ last := by
            intro same
            rw [← same] at reached
            exact absurd early (BitVec.not_lt.mpr reached)
          exact ⟨last, by omega, by omega,
            fun earlier atLeast below => before earlier (by omega) below, reached, count⟩
      · constructor
        · intro returned
          exact ⟨reading, le_rfl, by omega, fun earlier low high => by omega,
            BitVec.not_lt.mp early, Option.some.inj returned⟩
        · rintro ⟨last, low, high, before, reached, count⟩
          have same : reading = last := by
            by_contra different
            exact early (before reading le_rfl (by omega))
          rw [same, count]

/-- Ticks of a wake-up time that fits have all passed at the wake-up, whatever
the counter has done in between. -/
theorem sleep_ticks_elapsed {clock : Clock} {first ticks : BitVec 64} {turns elapsed : Nat}
    (fits : first.toNat + ticks.toNat < 2 ^ 64)
    (returned : sleepTicks clock first ticks turns = some elapsed) : ticks.toNat ≤ elapsed := by
  obtain ⟨last, -, -, -, reached, count⟩ :=
    (sleep_until_some clock first _ elapsed turns 1).mp returned
  by_contra early
  have below := first.isLt
  rw [Clock.tick_count_start, BitVec.le_def, Clock.tickCount, BitVec.toNat_add, BitVec.toNat_add,
    BitVec.toNat_ofNat, count, Nat.mod_eq_of_lt fits] at reached
  rw [Nat.mod_eq_of_lt (by omega : elapsed < 2 ^ 64), Nat.mod_eq_of_lt (by omega)] at reached
  omega

theorem sleep_ticks_jumping (first ticks : BitVec 64) :
    sleepTicks (.jumping ticks.toNat) first ticks 1 = some ticks.toNat := by
  refine (sleep_until_some _ first _ _ 1 1).mpr ⟨1, le_rfl, by omega, ?_, ?_, rfl⟩
  · intro earlier low high
    omega
  · simp [Clock.tickCount, Clock.jumping]

theorem sleep_ticks_stopped {first ticks : BitVec 64}
    (wraps : 2 ^ 64 ≤ first.toNat + ticks.toNat) :
    sleepTicks .stopped first ticks 1 = some 0 := by
  refine (sleep_until_some _ first _ _ 1 1).mpr ⟨1, le_rfl, by omega, ?_, ?_, rfl⟩
  · intro earlier low high
    omega
  · have first_bound := first.isLt
    have ticks_bound := ticks.isLt
    rw [Clock.tick_count_start, BitVec.le_def, BitVec.toNat_add]
    simp only [Clock.tickCount, Clock.stopped, BitVec.toNat_add, BitVec.toNat_ofNat]
    omega

theorem ticks_to_nat (req : TimeSpec) :
    req.ticks.toNat = (req.tvSec.toNat * 100 + req.tvNsec.toNat / 10000000) % 2 ^ 64 := by
  simp [TimeSpec.ticks, BitVec.toNat_add, BitVec.toNat_mul, BitVec.toNat_udiv]

section Accepted

variable {req : TimeSpec} (accepted : req.Accepted)

include accepted

theorem fields_unsigned :
    req.tvSec.toInt = req.tvSec.toNat ∧ req.tvNsec.toInt = req.tvNsec.toNat := by
  rcases accepted with ⟨secs, nsecs, -⟩
  rw [BitVec.toInt_eq_toNat_cond] at secs nsecs ⊢
  rw [BitVec.toInt_eq_toNat_cond]
  split_ifs at secs nsecs ⊢ <;> omega

theorem nanosleep_accepted (clock : Clock) (tickCount : BitVec 64) (turns : Nat) :
    sysNanosleep clock tickCount (some req) turns =
      if 0 < req.ticks then
        (sleepTicks clock tickCount req.ticks turns).map fun elapsed => (0, elapsed)
      else some (0, 0) := by
  rcases accepted with ⟨secs, nsecs, bound⟩
  have admitted :
      ¬(req.tvSec.toInt < 0 ∨ req.tvNsec.toInt < 0 ∨ 1000000000 ≤ req.tvNsec.toInt) := by
    omega
  simp only [sysNanosleep, if_neg admitted]

theorem nanosleep_elapsed {clock : Clock} {tickCount : BitVec 64} {turns elapsed : Nat}
    {value : Int} (fits : tickCount.toNat + req.ticks.toNat < 2 ^ 64)
    (returned : sysNanosleep clock tickCount (some req) turns = some (value, elapsed)) :
    req.ticks.toNat ≤ elapsed := by
  rw [nanosleep_accepted accepted] at returned
  split_ifs at returned with counted
  · obtain ⟨ticks, slept, result⟩ := Option.map_eq_some_iff.mp returned
    cases result
    exact sleep_ticks_elapsed fits slept
  · have zero : ¬0 < req.ticks.toNat := counted
    omega

theorem nanosleep_jumping (tickCount : BitVec 64) :
    ∃ clock : Clock, sysNanosleep clock tickCount (some req) 1 = some (0, req.ticks.toNat) := by
  refine ⟨.jumping req.ticks.toNat, ?_⟩
  rw [nanosleep_accepted accepted]
  split_ifs with counted
  · rw [sleep_ticks_jumping]
    rfl
  · have zero : ¬0 < req.ticks.toNat := counted
    rw [Nat.eq_zero_of_not_pos zero]

theorem nanosleep_stopped {tickCount : BitVec 64}
    (wraps : 2 ^ 64 ≤ tickCount.toNat + req.ticks.toNat) :
    sysNanosleep .stopped tickCount (some req) 1 = some (0, 0) := by
  rw [nanosleep_accepted accepted, sleep_ticks_stopped wraps]
  split_ifs <;> rfl

/-- With a wake-up time that fits, rounding makes a call early by less than one
tick. -/
theorem early_below_one_tick {clock : Clock} {tickCount : BitVec 64} {turns elapsed : Nat}
    {value : Int} (fits : req.WakeTimeFits tickCount)
    (returned : sysNanosleep clock tickCount (some req) turns = some (value, elapsed)) :
    req.requested < (elapsed + 1) * 10000000 := by
  obtain ⟨secs, nsecs⟩ := fields_unsigned accepted
  have ticks := ticks_to_nat req
  rw [TimeSpec.WakeTimeFits, secs, nsecs] at fits
  rw [Nat.mod_eq_of_lt (by omega)] at ticks
  have waited := nanosleep_elapsed accepted (by omega) returned
  rw [TimeSpec.requested, secs, nsecs]
  omega

theorem never_early_iff (tickCount : BitVec 64) :
    NeverEarly req tickCount ↔ req.WholeTicks ∧ req.WakeTimeFits tickCount := by
  obtain ⟨secs, nsecs⟩ := fields_unsigned accepted
  have ticks := ticks_to_nat req
  have below := tickCount.isLt
  constructor
  · intro never
    have exact_count : req.requested ≤ req.ticks.toNat * 10000000 := by
      obtain ⟨clock, returned⟩ := nanosleep_jumping accepted tickCount
      exact never clock 1 0 _ returned
    have wakes : tickCount.toNat + req.ticks.toNat < 2 ^ 64 := by
      by_contra wraps
      have returned := nanosleep_stopped accepted (Nat.le_of_not_lt wraps)
      have waited := never .stopped 1 0 0 returned
      rw [TimeSpec.requested, secs, nsecs] at waited
      omega
    rw [TimeSpec.requested, secs, nsecs] at exact_count
    rw [TimeSpec.WholeTicks, TimeSpec.WakeTimeFits, secs, nsecs]
    omega
  · rintro ⟨whole, fits⟩ clock turns value elapsed returned
    rw [TimeSpec.WholeTicks, nsecs] at whole
    rw [TimeSpec.WakeTimeFits, secs, nsecs] at fits
    rw [Nat.mod_eq_of_lt (by omega)] at ticks
    have waited := nanosleep_elapsed accepted (by omega) returned
    rw [TimeSpec.requested, secs, nsecs]
    omega

end Accepted

theorem never_early_iff_second :
    NeverEarly ⟨1, 20000000⟩ 5 ↔
      TimeSpec.WholeTicks ⟨1, 20000000⟩ ∧ TimeSpec.WakeTimeFits ⟨1, 20000000⟩ 5 :=
  never_early_iff (by decide) 5

/-- 15 ms are over after one tick, and the longest request one second after
boot at once. -/
theorem sleepers_wake_early :
    (TimeSpec.Accepted ⟨0, 15000000⟩ ∧ ¬NeverEarly ⟨0, 15000000⟩ 0) ∧
      TimeSpec.Accepted ⟨9223372036854775807, 0⟩ ∧
        ¬NeverEarly ⟨9223372036854775807, 0⟩ 100 := by
  refine ⟨⟨by decide, ?_⟩, by decide, ?_⟩
  · intro never
    have waited := never (.jumping 1) 1 0 1 (by decide)
    revert waited
    decide
  · intro never
    have waited := never .stopped 1 0 0 (by decide)
    revert waited
    decide

end Ferrugem.NanosleepTicks
