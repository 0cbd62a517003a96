import Ferrugem.KernelMachine
import Ferrugem.NanosleepTicks

/-!
# Who moves the tick counter

Of all sections of the kernel only the timer interrupt writes `TICK_COUNT`, and
it adds one. What a sleeper reads after the machine has taken any further
sections is therefore the first reading plus the number of timer interrupts in
between: a run of the machine is a clock for `nanosleep`.
-/

namespace Ferrugem.TickCounter

open Ferrugem.PipePoolModel Ferrugem.ProcessModel Ferrugem.SchedulerModel
open Ferrugem.DescriptorSyscalls Ferrugem.KernelMachine Ferrugem.NanosleepTicks

set_option autoImplicit false

variable (kernel : Kernel)

theorem modify_current_ticks (change : Task → Task) :
    (kernel.modifyCurrent change).tickCount = kernel.tickCount := by
  unfold Kernel.modifyCurrent
  split <;> rfl

theorem wake_slot_ticks (slot : Slot) : (kernel.wakeSlot slot).tickCount = kernel.tickCount := by
  unfold Kernel.wakeSlot
  split <;> rfl

theorem wake_tty_waiter_ticks : kernel.wakeTtyWaiter.tickCount = kernel.tickCount := by
  unfold Kernel.wakeTtyWaiter
  split
  · exact wake_slot_ticks _ _
  · rfl

theorem wake_pipe_waiter_ticks (idx : Nat) :
    (kernel.wakePipeWaiter idx).tickCount = kernel.tickCount := by
  unfold Kernel.wakePipeWaiter
  split
  · split
    · exact wake_slot_ticks _ _
    · rfl
  · rfl

theorem foldl_ticks {Item : Type} {operation : Kernel → Item → Kernel}
    (keeps : ∀ kernel item, (operation kernel item).tickCount = kernel.tickCount)
    (items : List Item) : (items.foldl operation kernel).tickCount = kernel.tickCount := by
  induction items generalizing kernel with
  | nil => rfl
  | cons item rest ih => exact (ih _).trans (keeps kernel item)

theorem wake_closed_pipe_readers_ticks :
    kernel.wakeClosedPipeReaders.tickCount = kernel.tickCount := by
  apply foldl_ticks
  intro kernel index
  unfold Kernel.wakeClosedPipeReader
  split_ifs
  · rfl
  · exact wake_pipe_waiter_ticks kernel _

theorem deliver_all_signals_ticks : kernel.deliverAllSignals.tickCount = kernel.tickCount := by
  apply foldl_ticks
  intro kernel slot
  unfold Kernel.deliverSlot
  split
  · rfl
  · dsimp only
    split_ifs <;> rfl

theorem signal_parent_ticks (parentPid sig : Nat) :
    (kernel.signalParent parentPid sig).tickCount = kernel.tickCount := by
  unfold Kernel.signalParent
  split
  · split <;> rfl
  · rfl

theorem raise_and_wake_ticks (slot : Slot) (sig : Nat) :
    (kernel.raiseAndWake slot sig).tickCount = kernel.tickCount := by
  unfold Kernel.raiseAndWake
  split <;> rfl

theorem raise_signal_to_pid_ticks (targetPid sig : Nat) :
    (kernel.raiseSignalToPid targetPid sig).1.tickCount = kernel.tickCount := by
  unfold Kernel.raiseSignalToPid
  split
  · exact raise_and_wake_ticks kernel _ sig
  · rfl

theorem sys_raise_ticks (targetPid sig : Nat) :
    (sysRaise kernel targetPid sig).tickCount = kernel.tickCount := by
  unfold sysRaise
  split_ifs
  · rfl
  · exact raise_signal_to_pid_ticks kernel targetPid sig

theorem kill_task_ticks (slot : Slot) : (kernel.killTask slot).1.tickCount = kernel.tickCount := by
  unfold Kernel.killTask
  split_ifs
  · rfl
  · exact raise_and_wake_ticks kernel slot sigkill
  · rfl

theorem exit_mark_ticks (code : BitVec 32) :
    (kernel.exitMark code).tickCount = kernel.tickCount := by
  unfold Kernel.exitMark
  split <;> rfl

theorem current_fd_alloc_ticks (entry : FdEntry) :
    (currentFdAlloc kernel entry).1.tickCount = kernel.tickCount := by
  unfold currentFdAlloc
  split
  · rfl
  · split <;> rfl

theorem current_fd_close_ticks (fd : Nat) :
    (currentFdClose kernel fd).1.tickCount = kernel.tickCount := by
  unfold currentFdClose
  split
  · rfl
  · split <;> rfl

theorem sys_dup_ticks (fd : Nat) : (sysDup kernel fd).1.tickCount = kernel.tickCount := by
  unfold sysDup currentFdDup
  dsimp only
  split
  · rfl
  · exact current_fd_alloc_ticks kernel _

theorem sys_dup2_ticks (oldFd newFd : Nat) :
    (sysDup2 kernel oldFd newFd).1.tickCount = kernel.tickCount := by
  unfold sysDup2 currentFdDup2
  split_ifs
  · rfl
  · split
    · rfl
    · split
      · rfl
      · split <;> rfl

theorem sys_fcntl_ticks (fd cmd : Nat) :
    (sysFcntl kernel fd cmd).1.tickCount = kernel.tickCount := by
  unfold sysFcntl
  split
  · rfl
  · split
    · exact sys_dup_ticks kernel fd
    all_goals rfl

theorem two_fds_ticks (pool : Pool) (first second : FdEntry) :
    (currentFdAlloc (currentFdAlloc { kernel with pool := pool } first).1 second).1.tickCount =
      kernel.tickCount :=
  (current_fd_alloc_ticks _ second).trans (current_fd_alloc_ticks _ first)

theorem sys_pipe_ticks (fdsPtr : Nat) :
    (sysPipe kernel fdsPtr).1.tickCount = kernel.tickCount := by
  unfold sysPipe
  split_ifs
  · rfl
  · split
    · rfl
    · dsimp only
      split <;> exact two_fds_ticks kernel _ _ _

theorem sys_socketpair_ticks (svPtr : Nat) :
    (sysSocketpair kernel svPtr).1.tickCount = kernel.tickCount := by
  unfold sysSocketpair
  split_ifs
  · rfl
  · split
    · rfl
    · split
      · rfl
      · dsimp only
        split <;> exact two_fds_ticks kernel _ _ _

theorem wake_if_write_closed_ticks (idx : Nat) :
    (wakeIfWriteClosed kernel idx).tickCount = kernel.tickCount := by
  unfold wakeIfWriteClosed
  split_ifs
  · rfl
  · exact wake_pipe_waiter_ticks kernel idx

theorem sys_close_ticks (fd : Nat) : (sysClose kernel fd).1.tickCount = kernel.tickCount := by
  have closes := current_fd_close_ticks kernel fd
  unfold sysClose
  split
  · rfl
  · rename_i closed entry result
    rw [result] at closes
    refine Eq.trans ?_ closes
    cases entry with
    | pipeWrite idx => exact wake_if_write_closed_ticks _ idx
    | socketPair readIdx writeIdx => exact wake_if_write_closed_ticks _ writeIdx
    | _ => rfl

theorem sys_read_pipe_ticks (fd length : Nat) :
    (sysReadPipe kernel fd length).1.tickCount = kernel.tickCount := by
  unfold sysReadPipe
  split_ifs
  · rfl
  · split
    · rfl
    · dsimp only
      split_ifs <;> rfl

theorem sys_write_pipe_ticks (fd : Nat) (data : List UInt8) :
    (sysWritePipe kernel fd data).1.tickCount = kernel.tickCount := by
  unfold sysWritePipe
  split_ifs
  · rfl
  · split
    · rfl
    · split_ifs
      · rfl
      · dsimp only
        split_ifs
        · exact wake_pipe_waiter_ticks _ _
        · rfl

variable (machine : Machine)

theorem schedule_ticks : machine.schedule.1.kernel.tickCount = machine.kernel.tickCount := by
  unfold Machine.schedule
  dsimp only
  split_ifs
  · rfl
  · split
    · unfold Machine.resume
      split
      · rfl
      · split <;> rfl
    · rfl

theorem blocking_ticks {reason : WaitReason} {kernel : Kernel} {change : Task → Task}
    (same : kernel.tickCount = machine.kernel.tickCount) :
    (machine.blocking reason (kernel.blockCurrent change)).kernel.tickCount =
      machine.kernel.tickCount := by
  unfold Machine.blocking Kernel.blockCurrent
  cases kernel.currentTask with
  | none => rfl
  | some task => exact same

theorem waitpid_ticks (target : Nat) (noHang : Bool) :
    (machine.waitpid target noHang).1.kernel.tickCount = machine.kernel.tickCount := by
  unfold Machine.waitpid Kernel.waitpid
  dsimp only
  cases machine.kernel.findZombieChild machine.kernel.currentPid target with
  | some slot =>
      dsimp only
      generalize machine.kernel.tasks slot = held
      cases held <;> rfl
  | none =>
      dsimp only
      split_ifs
      · rfl
      · rfl
      · unfold Kernel.blockCurrent
        cases machine.kernel.currentTask <;> rfl

theorem block_on_tty_ticks (hasInput : Bool) :
    (machine.blockOnTty hasInput).kernel.tickCount = machine.kernel.tickCount := by
  unfold Machine.blockOnTty
  split_ifs with input
  · rfl
  · simp only [Kernel.blockOnTty, input]
    exact blocking_ticks machine rfl

theorem block_on_pipe_ticks (idx : Nat) :
    (machine.blockOnPipe idx).kernel.tickCount = machine.kernel.tickCount := by
  unfold Machine.blockOnPipe Kernel.blockOnPipe
  split_ifs
  · exact blocking_ticks machine rfl
  · rfl
  · rfl

theorem tick_counted_ticks :
    machine.tickCounted.kernel.tickCount = (machine.kernel.tickCount + 1) % 2 ^ 64 := by
  unfold Machine.tickCounted
  dsimp only
  split_ifs
  · exact deliver_all_signals_ticks _
  · rfl

theorem tick_ticks :
    machine.tick.1.kernel.tickCount = (machine.kernel.tickCount + 1) % 2 ^ 64 := by
  unfold Machine.tick
  split_ifs
  · rw [schedule_ticks, tick_counted_ticks]
  · exact tick_counted_ticks machine

theorem sysret_ticks : machine.sysret.1.kernel.tickCount = machine.kernel.tickCount := by
  unfold Machine.sysret Machine.applyExecRedirect
  split
  · split <;> rfl
  · rfl

theorem perform_ticks {action : Action} (other : action ≠ .tick) :
    (machine.perform action).1.kernel.tickCount = machine.kernel.tickCount := by
  cases action with
  | tick => exact absurd rfl other
  | ttyInput =>
      simp only [Machine.perform]
      split_ifs
      · exact wake_tty_waiter_ticks machine.kernel
      · rfl
  | schedule => exact schedule_ticks machine
  | exitMark code => exact exit_mark_ticks machine.kernel code
  | wakeChildWaiters exitingPid parentPid => rfl
  | signalParent parentPid => exact signal_parent_ticks machine.kernel parentPid sigchld
  | wakeClosedPipeReaders => exact wake_closed_pipe_readers_ticks machine.kernel
  | waitpid target noHang => exact waitpid_ticks machine target noHang
  | blockOnTty hasInput => exact block_on_tty_ticks machine hasInput
  | blockOnPipe idx => exact block_on_pipe_ticks machine idx
  | readPipe fd length => exact sys_read_pipe_ticks machine.kernel fd length
  | writePipe fd data => exact sys_write_pipe_ticks machine.kernel fd data
  | raiseSignal targetPid sig => exact sys_raise_ticks machine.kernel targetPid sig
  | killTask slot => exact kill_task_ticks machine.kernel slot
  | pipe fdsPtr => exact sys_pipe_ticks machine.kernel fdsPtr
  | socketpair svPtr => exact sys_socketpair_ticks machine.kernel svPtr
  | dup fd => exact sys_dup_ticks machine.kernel fd
  | dup2 oldFd newFd => exact sys_dup2_ticks machine.kernel oldFd newFd
  | fcntl fd cmd => exact sys_fcntl_ticks machine.kernel fd cmd
  | close fd => exact sys_close_ticks machine.kernel fd
  | spawnGather kind => rfl
  | spawnChoose =>
      simp only [Machine.perform, Machine.spawnChoose]
      split <;> rfl
  | spawnInstall =>
      simp only [Machine.perform, Machine.spawnInstall]
      split <;> rfl
  | setFsBase value => exact modify_current_ticks machine.kernel _
  | writeFsBase value => rfl
  | execve newIp newSp newPt heapStart =>
      simp only [Machine.perform, Machine.execve]
      split
      · exact modify_current_ticks machine.kernel _
      · rfl
  | userStack rsp =>
      simp only [Machine.perform, Machine.userStack]
      split <;> rfl
  | syscallEntry =>
      simp only [Machine.perform, Machine.syscallEntry]
      split
      · split_ifs <;> rfl
      · rfl
  | sysret => exact sysret_ticks machine

/-- The section is a timer interrupt that the processor takes. -/
def counts (action : Action) : Bool :=
  decide (action = .tick) && machine.irqsOn && !machine.halted && !machine.returning

theorem step_ticks (action : Action) :
    BitVec.ofNat 64 (machine.step action).1.kernel.tickCount =
      BitVec.ofNat 64 (machine.kernel.tickCount + (counts machine action).toNat) := by
  by_cases tick : action = .tick
  · subst tick
    unfold Machine.step
    split_ifs with halted returning
    · simp [counts, halted]
    · simp [counts, returning.1]
    · have going : machine.returning = false := by
        cases set : machine.returning with
        | true => exact absurd ⟨set, by decide⟩ returning
        | false => rfl
      simp only [Machine.perform]
      split_ifs with enabled
      · have counted : counts machine .tick = true := by simp [counts, enabled, halted, going]
        rw [tick_ticks, counted]
        exact BitVec.eq_of_toNat_eq (by simp)
      · simp [counts, enabled]
  · have uncounted : counts machine action = false := by simp [counts, tick]
    rw [uncounted]
    unfold Machine.step
    split_ifs
    · rfl
    · rfl
    · rw [perform_ticks machine tick]
      rfl

def ticksIn : Machine → List Action → Nat
  | _, [] => 0
  | machine, action :: rest => (counts machine action).toNat + ticksIn (machine.step action).1 rest

theorem ticks_in_append (before after : List Action) :
    ticksIn machine (before ++ after) =
      ticksIn machine before + ticksIn (kernelSystem.runFrom machine before) after := by
  induction before generalizing machine with
  | nil => exact (Nat.zero_add _).symm
  | cons action rest ih =>
      rw [List.cons_append, ticksIn, ticksIn, ih, Nat.add_assoc]
      rfl

theorem run_ticks (actions : List Action) :
    BitVec.ofNat 64 (kernelSystem.runFrom machine actions).kernel.tickCount =
      BitVec.ofNat 64 machine.kernel.tickCount + BitVec.ofNat 64 (ticksIn machine actions) := by
  induction actions generalizing machine with
  | nil => simp [EventSystem.runFrom, ticksIn]
  | cons action rest ih =>
      rw [EventSystem.runFrom, ih, ticksIn]
      change BitVec.ofNat 64 (machine.step action).1.kernel.tickCount + _ = _
      rw [step_ticks, BitVec.ofNat_add, BitVec.ofNat_add, BitVec.add_assoc]
      rfl

section Sleeping

variable (batches : Nat → List Action)

def takenBefore (reading : Nat) : List Action := (List.range reading).flatMap batches

def machineClock : Clock where
  elapsed reading := ticksIn machine (takenBefore batches reading)
  start := rfl
  monotone := by
    refine monotone_nat_of_le_succ fun reading => ?_
    rw [takenBefore, takenBefore, List.range_succ, List.flatMap_append, ticks_in_append]
    exact Nat.le_add_right _ _

theorem machine_clock_reading (reading : Nat) :
    BitVec.ofNat 64 (kernelSystem.runFrom machine (takenBefore batches reading)).kernel.tickCount =
      (machineClock machine batches).tickCount (BitVec.ofNat 64 machine.kernel.tickCount) reading :=
  run_ticks machine (takenBefore batches reading)

/-- The loop of `sleep_ticks` with the machine running between the readings. -/
def sleepOn (wakeAt : BitVec 64) : Nat → Nat → Option Nat
  | 0, _ => none
  | turns + 1, reading =>
      let taken := takenBefore batches reading
      if BitVec.ofNat 64 (kernelSystem.runFrom machine taken).kernel.tickCount < wakeAt then
        sleepOn wakeAt turns (reading + 1)
      else some (ticksIn machine taken)

theorem sleep_on_clock (wakeAt : BitVec 64) (turns reading : Nat) :
    sleepOn machine batches wakeAt turns reading =
      sleepUntil (machineClock machine batches) (BitVec.ofNat 64 machine.kernel.tickCount) wakeAt
        turns reading := by
  induction turns generalizing reading with
  | zero => rfl
  | succ turns ih =>
      rw [sleepOn, sleepUntil, ih, machine_clock_reading]
      rfl

/-- A sleeper whose wake-up time fits in the counter leaves the loop only after
that many timer interrupts, whatever the machine does meanwhile. -/
theorem sleep_on_elapsed {ticks : BitVec 64} {turns elapsed : Nat}
    (fits : (BitVec.ofNat 64 machine.kernel.tickCount).toNat + ticks.toNat < 2 ^ 64)
    (returned : sleepOn machine batches (BitVec.ofNat 64 machine.kernel.tickCount + ticks)
      turns 1 = some elapsed) : ticks.toNat ≤ elapsed := by
  rw [sleep_on_clock] at returned
  apply sleep_ticks_elapsed fits
  rw [sleepTicks, Clock.tick_count_start]
  exact returned

end Sleeping

end Ferrugem.TickCounter
