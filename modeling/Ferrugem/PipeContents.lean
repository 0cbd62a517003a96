import Ferrugem.ByteRings
import Ferrugem.KernelOperations
import Ferrugem.PipeEnds

/-!
# Who touches the bytes of a pipe

Of all operations of the kernel only `sys_write`, `sys_read` and the allocation
of a new pipe change a ring. Opening and dropping ends, `fork`, termination and
the delivery of signals change the counts of a slot and leave its ring alone.
-/

namespace Ferrugem.PipeContents

open Ferrugem.PipePoolModel Ferrugem.ProcessModel Ferrugem.SchedulerModel
open Ferrugem.DescriptorSyscalls Ferrugem.KernelMachine Ferrugem.KernelEvolution
open Ferrugem.TaskLifecycle Ferrugem.KernelOperations Ferrugem.PipeEnds Ferrugem.ByteRings

set_option autoImplicit false

def rings (pool : Pool) (index : PipeIndex) : Pipe := (pool index).pipe

theorem rings_modify_in_use {pool : Pool} {idx : Nat}
    {change : (slot : PipeSlot) → slot.inUse = true → PipeSlot}
    (keeps : ∀ slot live, (change slot live).pipe = slot.pipe) :
    rings (modifyInUse pool idx change) = rings pool := by
  funext index
  apply modify_in_use_cases (fun slot => slot.pipe = (pool index).pipe)
  · exact fun _ => rfl
  · exact fun _ _ => rfl
  · exact fun _ live => keeps (pool index) live

theorem free_if_unreferenced_pipe (slot : PipeSlot) :
    (freeIfUnreferenced slot).pipe = slot.pipe := by
  unfold freeIfUnreferenced
  split_ifs <;> rfl

@[simp] theorem rings_close_end (side : End) (pool : Pool) (idx : Nat) :
    rings (closeEnd side pool idx) = rings pool := by
  rw [close_end_eq]
  apply rings_modify_in_use
  intro slot live
  cases side <;> exact free_if_unreferenced_pipe _

@[simp] theorem rings_close_read (pool : Pool) (idx : Nat) :
    rings (closePipeRead pool idx) = rings pool :=
  rings_close_end .reading pool idx

@[simp] theorem rings_close_write (pool : Pool) (idx : Nat) :
    rings (closePipeWrite pool idx) = rings pool :=
  rings_close_end .writing pool idx

@[simp] theorem rings_dup_end (side : End) (pool : Pool) (idx : Nat) :
    rings (dupEnd side pool idx) = rings pool := by
  rw [dup_end_eq]
  apply rings_modify_in_use
  intro slot live
  cases side <;> simp only [dupChange] <;> split_ifs <;> rfl

@[simp] theorem rings_release_entry (pool : Pool) (entry : FdEntry) :
    rings (releaseEntry pool entry) = rings pool := by
  cases entry <;> simp [releaseEntry]

@[simp] theorem rings_dup_entry (pool : Pool) (entry : FdEntry) :
    rings (dupEntry pool entry) = rings pool := by
  cases entry with
  | pipeRead idx => exact rings_dup_end .reading pool idx
  | pipeWrite idx => exact rings_dup_end .writing pool idx
  | socketPair readIdx writeIdx =>
      exact (rings_dup_end .writing _ writeIdx).trans (rings_dup_end .reading pool readIdx)
  | _ => rfl

theorem rings_foldl {Item : Type} {operation : Pool → Item → Pool}
    (keeps : ∀ pool item, rings (operation pool item) = rings pool) (items : List Item)
    (pool : Pool) : rings (items.foldl operation pool) = rings pool := by
  induction items generalizing pool with
  | nil => rfl
  | cons item rest ih => exact (ih _).trans (keeps pool item)

@[simp] theorem rings_close_all (pool : Pool) (table : FdTable) :
    rings (FdTable.closeAll pool table) = rings pool :=
  rings_foldl (fun pool fd => rings_release_entry pool (table fd)) _ pool

@[simp] theorem rings_dup_all (pool : Pool) (table : FdTable) :
    rings (FdTable.dupAll pool table) = rings pool :=
  rings_foldl (fun pool fd => rings_dup_entry pool (table fd)) _ pool

theorem rings_alloc {pool after : Pool} {idx : PipeIndex}
    (allocated : allocPipe pool = some (idx, after)) :
    rings after = Function.update (rings pool) idx Pipe.new := by
  funext index
  by_cases same : index = idx
  · subst same
    unfold allocPipe at allocated
    obtain ⟨found, search, pair⟩ := Option.map_eq_some_iff.mp allocated
    simp only [Prod.mk.injEq] at pair
    obtain ⟨rfl, rfl⟩ := pair
    simp [rings]
  · simp only [rings, Function.update_of_ne same, alloc_pipe_other allocated same]

@[simp] theorem wake_slot_pool (kernel : Kernel) (slot : Slot) :
    (kernel.wakeSlot slot).pool = kernel.pool := by
  unfold Kernel.wakeSlot
  split <;> rfl

@[simp] theorem wake_tty_waiter_pool (kernel : Kernel) :
    kernel.wakeTtyWaiter.pool = kernel.pool := by
  unfold Kernel.wakeTtyWaiter
  split
  · exact wake_slot_pool _ _
  · rfl

@[simp] theorem wake_pipe_waiter_pool (kernel : Kernel) (idx : Nat) :
    (kernel.wakePipeWaiter idx).pool = kernel.pool := by
  unfold Kernel.wakePipeWaiter
  split
  · split
    · exact wake_slot_pool _ _
    · rfl
  · rfl

@[simp] theorem wake_closed_pipe_readers_pool (kernel : Kernel) :
    kernel.wakeClosedPipeReaders.pool = kernel.pool := by
  unfold Kernel.wakeClosedPipeReaders
  generalize List.finRange maxPipes = indices
  induction indices generalizing kernel with
  | nil => rfl
  | cons index rest ih =>
      refine (ih _).trans ?_
      unfold Kernel.wakeClosedPipeReader
      split_ifs
      · rfl
      · exact wake_pipe_waiter_pool kernel _

@[simp] theorem wake_if_write_closed_pool (kernel : Kernel) (idx : Nat) :
    (wakeIfWriteClosed kernel idx).pool = kernel.pool := by
  unfold wakeIfWriteClosed
  split_ifs
  · rfl
  · exact wake_pipe_waiter_pool kernel idx

@[simp] theorem signal_parent_pool (kernel : Kernel) (parentPid sig : Nat) :
    (kernel.signalParent parentPid sig).pool = kernel.pool := by
  unfold Kernel.signalParent
  split
  · split <;> rfl
  · rfl

@[simp] theorem raise_and_wake_pool (kernel : Kernel) (slot : Slot) (sig : Nat) :
    (kernel.raiseAndWake slot sig).pool = kernel.pool := by
  unfold Kernel.raiseAndWake
  split <;> rfl

@[simp] theorem raise_signal_to_pid_pool (kernel : Kernel) (targetPid sig : Nat) :
    (kernel.raiseSignalToPid targetPid sig).1.pool = kernel.pool := by
  unfold Kernel.raiseSignalToPid
  split
  · exact raise_and_wake_pool kernel _ sig
  · rfl

theorem sys_raise_pool (kernel : Kernel) (targetPid sig : Nat) :
    (sysRaise kernel targetPid sig).pool = kernel.pool := by
  unfold sysRaise
  split_ifs
  · rfl
  · exact raise_signal_to_pid_pool kernel targetPid sig

@[simp] theorem kill_task_pool (kernel : Kernel) (slot : Slot) :
    (kernel.killTask slot).1.pool = kernel.pool := by
  unfold Kernel.killTask
  split_ifs
  · rfl
  · exact raise_and_wake_pool kernel slot sigkill
  · rfl

theorem deliver_slot_rings (kernel : Kernel) (slot : Slot) :
    rings (kernel.deliverSlot slot).pool = rings kernel.pool := by
  unfold Kernel.deliverSlot
  split
  · rfl
  · dsimp only
    split_ifs
    · rfl
    · rfl
    · exact rings_close_all kernel.pool _
    · rfl
    · rfl

@[simp] theorem deliver_all_signals_rings (kernel : Kernel) :
    rings kernel.deliverAllSignals.pool = rings kernel.pool := by
  unfold Kernel.deliverAllSignals
  generalize taskSlots = slots
  induction slots generalizing kernel with
  | nil => rfl
  | cons slot rest ih => exact (ih _).trans (deliver_slot_rings kernel slot)

@[simp] theorem exit_mark_rings (kernel : Kernel) (code : BitVec 32) :
    rings (kernel.exitMark code).pool = rings kernel.pool := by
  unfold Kernel.exitMark
  split
  · exact rings_close_all kernel.pool _
  · rfl

theorem sys_close_rings (kernel : Kernel) (fd : Nat) :
    rings (sysClose kernel fd).1.pool = rings kernel.pool := by
  have closes := current_fd_close_pool kernel fd
  unfold sysClose
  split
  · rfl
  · rename_i closed entry result
    rw [result] at closes
    rw [← closes]
    cases entry <;> simp

theorem sys_dup2_rings (kernel : Kernel) (oldFd newFd : Nat) :
    rings (sysDup2 kernel oldFd newFd).1.pool = rings kernel.pool := by
  unfold sysDup2 currentFdDup2
  split_ifs
  · rfl
  · split
    · rfl
    · split
      · rfl
      · split
        · rfl
        · rename_i replaced
          unfold FdTable.allocAt at replaced
          split_ifs at replaced
          cases replaced
          exact rings_release_entry kernel.pool _

/-- The pipes that a call allocates, also if it fails afterwards. -/
def openedPipes (kernel : Kernel) : Action → List PipeIndex
  | .pipe fdsPtr => if fdsPtr = 0 then [] else (allocPipe kernel.pool).toList.map Prod.fst
  | .socketpair svPtr =>
      if svPtr = 0 then []
      else
        match allocPipe kernel.pool with
        | none => []
        | some (a, poolA) => a :: (allocPipe poolA).toList.map Prod.fst
  | _ => []

theorem new_pipe_bytes : pipeBytes Pipe.new = [] := GapRing.contents_empty rfl

theorem sys_pipe_rings (kernel : Kernel) (fdsPtr : Nat) (index : PipeIndex) :
    rings (sysPipe kernel fdsPtr).1.pool index =
      if index ∈ openedPipes kernel (.pipe fdsPtr) then Pipe.new else rings kernel.pool index := by
  unfold sysPipe openedPipes
  by_cases null : fdsPtr = 0
  · simp [null]
  · simp only [null, if_false]
    cases allocated : allocPipe kernel.pool with
    | none => simp
    | some opened =>
        obtain ⟨idx, pool⟩ := opened
        have fresh := rings_alloc allocated
        dsimp only
        split <;> simp [current_fd_alloc_pool, closePipe, fresh, Function.update_apply]

theorem sys_socketpair_rings (kernel : Kernel) (svPtr : Nat) (index : PipeIndex) :
    rings (sysSocketpair kernel svPtr).1.pool index =
      if index ∈ openedPipes kernel (.socketpair svPtr) then Pipe.new
      else rings kernel.pool index := by
  unfold sysSocketpair openedPipes
  by_cases null : svPtr = 0
  · simp [null]
  · simp only [null, if_false]
    cases allocatedA : allocPipe kernel.pool with
    | none => simp
    | some openedA =>
        obtain ⟨a, poolA⟩ := openedA
        have freshA := rings_alloc allocatedA
        rcases Option.eq_none_or_eq_some (allocPipe poolA) with missing | ⟨⟨b, poolB⟩, allocatedB⟩
        · simp [missing, closePipe, freshA, Function.update_apply]
        · have freshB := rings_alloc allocatedB
          have both : rings poolB index =
              if index = a ∨ index = b then Pipe.new else rings kernel.pool index := by
            simp only [freshB, freshA, Function.update_apply]
            by_cases isB : index = b
            · simp [isB]
            · simp [isB]
          simp only [allocatedB]
          split <;> simp [current_fd_alloc_pool, both]

def movesBytes : Action → Bool
  | .readPipe _ _ => true
  | .writePipe _ _ => true
  | .pipe _ => true
  | .socketpair _ => true
  | _ => false

theorem install_rings (kernel : Kernel) (slot : Slot) (request : Kernel.SpawnRequest) :
    rings (kernel.install slot request).pool = rings kernel.pool := by
  unfold Kernel.install
  dsimp only
  split_ifs
  · exact rings_dup_all kernel.pool _
  · rfl

theorem tick_counted_rings (machine : Machine) :
    rings machine.tickCounted.kernel.pool = rings machine.kernel.pool := by
  unfold Machine.tickCounted
  dsimp only
  split_ifs
  · exact deliver_all_signals_rings _
  · rfl

theorem blocking_pool {machine : Machine} {reason : WaitReason} {kernel : Kernel}
    {change : Task → Task} (same : kernel.pool = machine.kernel.pool) :
    (machine.blocking reason (kernel.blockCurrent change)).kernel.pool = machine.kernel.pool := by
  unfold Machine.blocking Kernel.blockCurrent
  cases kernel.currentTask with
  | none => rfl
  | some task => exact same

theorem waitpid_pool (machine : Machine) (target : Nat) (noHang : Bool) :
    (machine.waitpid target noHang).1.kernel.pool = machine.kernel.pool := by
  unfold Machine.waitpid Kernel.waitpid
  dsimp only
  cases machine.kernel.findZombieChild machine.kernel.currentPid target with
  | some slot =>
      dsimp only
      generalize machine.kernel.tasks slot = held
      cases held <;> rfl
  | none =>
      dsimp only
      split_ifs
      · rfl
      · rfl
      · unfold Kernel.blockCurrent
        cases machine.kernel.currentTask <;> rfl

theorem block_on_tty_pool (machine : Machine) (hasInput : Bool) :
    (machine.blockOnTty hasInput).kernel.pool = machine.kernel.pool := by
  unfold Machine.blockOnTty
  split_ifs with input
  · rfl
  · simp only [Kernel.blockOnTty, input]
    exact blocking_pool rfl

theorem block_on_pipe_pool (machine : Machine) (idx : Nat) :
    (machine.blockOnPipe idx).kernel.pool = machine.kernel.pool := by
  unfold Machine.blockOnPipe
  split_ifs with must
  · simp only [Kernel.blockOnPipe, must, must_block_bound must, dite_true, if_true]
    exact blocking_pool rfl
  · rfl

theorem perform_rings (machine : Machine) {action : Action} (keeps : movesBytes action = false) :
    rings (machine.perform action).1.kernel.pool = rings machine.kernel.pool := by
  cases action with
  | readPipe fd length => cases keeps
  | writePipe fd data => cases keeps
  | pipe fdsPtr => cases keeps
  | socketpair svPtr => cases keeps
  | tick =>
      simp only [Machine.perform, Machine.tick]
      split_ifs
      · rw [schedule_pool]
        exact tick_counted_rings machine
      · exact tick_counted_rings machine
      · rfl
  | ttyInput =>
      simp only [Machine.perform]
      split_ifs
      · exact congrArg rings (wake_tty_waiter_pool machine.kernel)
      · rfl
  | schedule => exact congrArg rings (schedule_pool machine)
  | exitMark code => exact exit_mark_rings machine.kernel code
  | wakeChildWaiters exitingPid parentPid => rfl
  | signalParent parentPid =>
      exact congrArg rings (signal_parent_pool machine.kernel parentPid sigchld)
  | wakeClosedPipeReaders => exact congrArg rings (wake_closed_pipe_readers_pool machine.kernel)
  | waitpid target noHang => exact congrArg rings (waitpid_pool machine target noHang)
  | blockOnTty hasInput => exact congrArg rings (block_on_tty_pool machine hasInput)
  | blockOnPipe idx => exact congrArg rings (block_on_pipe_pool machine idx)
  | raiseSignal targetPid sig =>
      exact congrArg rings (sys_raise_pool machine.kernel targetPid sig)
  | killTask slot => exact congrArg rings (kill_task_pool machine.kernel slot)
  | dup fd => exact congrArg rings (sys_dup_pool machine.kernel fd)
  | dup2 oldFd newFd => exact sys_dup2_rings machine.kernel oldFd newFd
  | fcntl fd cmd => exact congrArg rings (sys_fcntl_pool machine.kernel fd cmd)
  | close fd => exact sys_close_rings machine.kernel fd
  | spawnGather kind => rfl
  | spawnChoose =>
      simp only [Machine.perform, Machine.spawnChoose]
      split <;> rfl
  | spawnInstall =>
      simp only [Machine.perform, Machine.spawnInstall]
      split
      · exact install_rings machine.kernel _ _
      · rfl
  | setFsBase value => exact congrArg rings (modify_current_pool machine.kernel _)
  | writeFsBase value => rfl
  | execve newIp newSp newPt heapStart =>
      simp only [Machine.perform, Machine.execve]
      split
      · exact congrArg rings (modify_current_pool machine.kernel _)
      · rfl
  | userStack rsp =>
      simp only [Machine.perform, Machine.userStack]
      split <;> rfl
  | syscallEntry =>
      simp only [Machine.perform, Machine.syscallEntry]
      split
      · split_ifs <;> rfl
      · rfl
  | sysret => exact congrArg (fun kernel => rings kernel.pool) (sysret_kernel machine)

def isSection : Operation → Bool
  | .act _ _ => true
  | _ => false

theorem operation_rings (machine : Machine) {operation : Operation}
    (composed : isSection operation = false) :
    rings (operationSystem.step machine operation).1.kernel.pool = rings machine.kernel.pool := by
  have shape := operation_case machine operation
  generalize (operationSystem.step machine operation).1 = result at shape ⊢
  cases shape with
  | idle => rfl
  | acts running going => cases composed
  | @exits code task present =>
      rw [schedule_pool]
      simp [Machine.withKernel, exitKernel, Kernel.wakeChildWaiters]
  | schedules => exact congrArg rings (schedule_pool machine)
  | fails => rfl
  | spawns running going gathered vacant => exact install_rings machine.kernel _ _

end Ferrugem.PipeContents
