import Ferrugem.ProcessModel

/-!
# The scheduler's global state and its operations

`kernel/src/scheduler/mod.rs` without the context switch itself, which is in
`Ferrugem.KernelMachine`. `Kernel` holds the `static mut` items of the
scheduler, the pipe pool and `NEXT_PID`. Slot numbers are `Fin 64`: every
index the source computes is a loop variable below `MAX_TASKS` or a value
stored from `CURRENT`. An `unwrap` of an empty slot is `none` here. The canary
word at the bottom of a kernel stack is not modelled: `check_canary` never
fires in a run without a stack overflow.

A function below is one run of its source function from its call to its return:
`waitpid`, `block_on_tty` and `block_on_pipe` up to their `schedule()` call, with
interrupts disabled, the others as they run when no interrupt comes in. The wake-up
functions, `raise_signal_to_pid`, `kill_task`, `exit_current` and the creation paths
do not disable interrupts; `Ferrugem.PreemptedCalls` takes them statement by statement,
and `Ferrugem.UninterruptedCalls` shows that both agree when no interrupt comes in.
-/

namespace Ferrugem.SchedulerModel

open Ferrugem.PipePoolModel Ferrugem.ProcessModel

set_option autoImplicit false

def maxTasks : Nat := 64

abbrev Slot := Fin maxTasks

def idleSlot : Slot := ⟨0, by decide⟩

def firstSlot : Slot := ⟨1, by decide⟩

def u64Max : Nat := 2 ^ 64 - 1

/-- `1..MAX_TASKS`. -/
def taskSlots : List Slot := (List.finRange maxTasks).tail

structure Kernel where
  tasks : Slot → Option Task
  guardPhys : Slot → Nat
  current : Slot
  tickCount : Nat
  ttyWaiter : Option Slot
  pipeWaiters : PipeIndex → Option Slot
  pool : Pool
  nextPid : Nat

/-- The state after `scheduler::init`. -/
def boot : Kernel where
  tasks := fun slot => if slot = idleSlot then some Task.idle else none
  guardPhys := fun _ => 0
  current := idleSlot
  tickCount := 0
  ttyWaiter := none
  pipeWaiters := fun _ => none
  pool := emptyPool
  nextPid := 1

namespace Kernel

def setTask (kernel : Kernel) (slot : Slot) (task : Task) : Kernel :=
  { kernel with tasks := Function.update kernel.tasks slot (some task) }

def currentTask (kernel : Kernel) : Option Task := kernel.tasks kernel.current

def currentPid (kernel : Kernel) : Nat := (kernel.currentTask.map Task.pid).getD 0

def modifyCurrent (kernel : Kernel) (change : Task → Task) : Kernel :=
  match kernel.currentTask with
  | some task => kernel.setTask kernel.current (change task)
  | none => kernel

def searchStart (current : Slot) : Nat :=
  if current.val = 0 then 1 else current.val % (maxTasks - 1) + 1

def scanSlot (current : Slot) (i : Nat) : Slot :=
  ⟨(searchStart current - 1 + i) % (maxTasks - 1) + 1, by
    have bound : (searchStart current - 1 + i) % (maxTasks - 1) < maxTasks - 1 :=
      Nat.mod_lt _ (by decide)
    simp only [maxTasks] at bound ⊢
    omega⟩

def isReady (kernel : Kernel) (slot : Slot) : Bool :=
  (kernel.tasks slot).any fun task => task.state == .ready

/-- The slot `schedule` switches to: the first ready slot in cyclic order, or
the idle slot. -/
def pickNext (kernel : Kernel) : Slot :=
  (((List.range (maxTasks - 1)).map (scanSlot kernel.current)).find? kernel.isReady).getD idleSlot

/-- A wake function's last statement: a blocked task becomes ready. -/
def wake (task : Task) : Task :=
  if task.state = .blocked then { task with state := .ready } else task

def wakeSlot (kernel : Kernel) (slot : Slot) : Kernel :=
  match kernel.tasks slot with
  | some task => kernel.setTask slot (wake task)
  | none => kernel

def wakesOnExit (exitingPid parentPid : Nat) (task : Task) : Bool :=
  task.state == .blocked &&
    (task.waitingForPid == exitingPid ||
      (task.waitingForPid == u64Max && task.pid == parentPid))

/-- Each iteration of the source's loop touches only its own slot. -/
def wakeChildWaiters (kernel : Kernel) (exitingPid parentPid : Nat) : Kernel :=
  { kernel with
    tasks := fun slot => (kernel.tasks slot).map fun task =>
      if wakesOnExit exitingPid parentPid task then
        { task with waitingForPid := 0, state := .ready }
      else task }

def wakeTtyWaiter (kernel : Kernel) : Kernel :=
  match kernel.ttyWaiter with
  | some slot => wakeSlot { kernel with ttyWaiter := none } slot
  | none => kernel

/-- An index outside the array is a bounds panic in the source and cannot
arise from a descriptor; the model leaves the state alone there. -/
def wakePipeWaiter (kernel : Kernel) (idx : Nat) : Kernel :=
  if bound : idx < maxPipes then
    match kernel.pipeWaiters ⟨idx, bound⟩ with
    | some slot =>
        wakeSlot
          { kernel with
            pipeWaiters := Function.update kernel.pipeWaiters ⟨idx, bound⟩ none } slot
    | none => kernel
  else kernel

/-- One iteration of `wake_closed_pipe_readers`. -/
def wakeClosedPipeReader (kernel : Kernel) (index : PipeIndex) : Kernel :=
  if pipeWriteOpen kernel.pool index.val then kernel else wakePipeWaiter kernel index.val

def wakeClosedPipeReaders (kernel : Kernel) : Kernel :=
  (List.finRange maxPipes).foldl wakeClosedPipeReader kernel

/-- One iteration of `deliver_all_signals`. -/
def deliverSlot (kernel : Kernel) (slot : Slot) : Kernel :=
  match kernel.tasks slot with
  | none => kernel
  | some task =>
      if task.state = .zombie then kernel
      else if task.pendingSignals = 0 then kernel
      else
        let lethal := task.takeFirst lethalSignals
        if lethal.1 then
          let ended := lethal.2.exit kernel.pool 1
          wakeChildWaiters ({ kernel with pool := ended.1 }.setTask slot ended.2)
            task.pid task.ppid
        else
          let child := lethal.2.takeSignal sigchld
          if child.1 ∧ child.2.waitingForPid ≠ 0 then
            kernel.setTask slot { child.2 with state := .ready, waitingForPid := 0 }
          else kernel.setTask slot child.2

def deliverAllSignals (kernel : Kernel) : Kernel := taskSlots.foldl deliverSlot kernel

/-- `signal_parent`: the first slot with the pid, whatever its state. -/
def signalParent (kernel : Kernel) (parentPid sig : Nat) : Kernel :=
  match (List.finRange maxTasks).find? fun slot =>
      (kernel.tasks slot).any fun task => task.pid == parentPid with
  | some slot =>
      match kernel.tasks slot with
      | some task => kernel.setTask slot (task.raiseSignal sig)
      | none => kernel
  | none => kernel

/-- The body shared by `raise_signal_to_pid` and `kill_task`. -/
def raiseAndWake (kernel : Kernel) (slot : Slot) (sig : Nat) : Kernel :=
  match kernel.tasks slot with
  | some task => kernel.setTask slot (wake (task.raiseSignal sig))
  | none => kernel

def raiseSignalToPid (kernel : Kernel) (targetPid sig : Nat) : Kernel × Bool :=
  match (List.finRange maxTasks).find? fun slot =>
      (kernel.tasks slot).any fun task => task.pid == targetPid && task.state != .zombie with
  | some slot => (raiseAndWake kernel slot sig, true)
  | none => (kernel, false)

def killTask (kernel : Kernel) (slot : Slot) : Kernel × Bool :=
  if slot = idleSlot ∨ slot = kernel.current then (kernel, false)
  else if (kernel.tasks slot).any fun task => task.state != .zombie then
    (raiseAndWake kernel slot sigkill, true)
  else (kernel, false)

/-- The first statement of `exit_current`'s branch: `t.exit(code)`. -/
def exitMark (kernel : Kernel) (code : BitVec 32) : Kernel :=
  match kernel.currentTask with
  | some task =>
      let ended := task.exit kernel.pool code
      { kernel with pool := ended.1 }.setTask kernel.current ended.2
  | none => kernel

/-- `WEXITSTATUS` encoding. -/
def exitStatus (code : BitVec 32) : BitVec 32 := (code &&& 0xFF#32) <<< 8

inductive WaitOutcome where
  | reaped (pid : Nat) (status : BitVec 32)
  | noChild
  | wouldHang
  | blocked
  deriving DecidableEq

def isZombieChild (parentPid target : Nat) (task : Task) : Bool :=
  task.state == .zombie && task.ppid == parentPid &&
    (target == u64Max || task.pid == target)

def findZombieChild (kernel : Kernel) (parentPid target : Nat) : Option Slot :=
  taskSlots.find? fun slot => (kernel.tasks slot).any (isZombieChild parentPid target)

def hasLivingChild (kernel : Kernel) (parentPid : Nat) : Bool :=
  taskSlots.any fun slot =>
    (kernel.tasks slot).any fun task => task.ppid == parentPid && task.state != .zombie

/-- The common end of the three blocking sections; `none` is the `unwrap` of
an empty current slot. -/
def blockCurrent (kernel : Kernel) (change : Task → Task) : Option Kernel :=
  kernel.currentTask.map fun task =>
    kernel.setTask kernel.current { change task with state := .blocked }

/-- One iteration of the `waitpid` loop up to its `schedule()`. The caller's
pid is read once before the loop; it is the current task's pid throughout. -/
def waitpid (kernel : Kernel) (target : Nat) (noHang : Bool) :
    Option (Kernel × WaitOutcome) :=
  let parentPid := kernel.currentPid
  match kernel.findZombieChild parentPid target with
  | some slot =>
      (kernel.tasks slot).map fun task =>
        ({ kernel with tasks := Function.update kernel.tasks slot none },
          .reaped task.pid (exitStatus task.exitCode))
  | none =>
      if !kernel.hasLivingChild parentPid then some (kernel, .noChild)
      else if noHang then some (kernel, .wouldHang)
      else
        (kernel.blockCurrent fun task => { task with waitingForPid := target }).map fun after =>
          (after, .blocked)

def blockOnTty (kernel : Kernel) (hasInput : Bool) : Option Kernel :=
  if hasInput then some kernel
  else { kernel with ttyWaiter := some kernel.current }.blockCurrent id

/-- The test `block_on_pipe` makes before it blocks. -/
def mustBlockOnPipe (kernel : Kernel) (idx : Nat) : Bool :=
  !pipeHasData kernel.pool idx && pipeWriteOpen kernel.pool idx

def blockOnPipe (kernel : Kernel) (idx : Nat) : Option Kernel :=
  if kernel.mustBlockOnPipe idx then
    if bound : idx < maxPipes then
      { kernel with
        pipeWaiters := Function.update kernel.pipeWaiters ⟨idx, bound⟩
          (some kernel.current) }.blockCurrent id
    else none
  else some kernel

def vacant (kernel : Kernel) (slot : Slot) : Bool :=
  (kernel.tasks slot).all fun task => task.state == .zombie

/-- The slot search shared by `spawn_fn`, `spawn_user`, `spawn_elf`,
`spawn_fork` and `spawn`. -/
def firstVacant (kernel : Kernel) : Option Slot := taskSlots.find? kernel.vacant

/-- What a creation path has gathered before it looks for a slot. `child` has
every field of the new task except its pid. -/
structure SpawnRequest where
  child : Task
  inheritsFds : Bool
  guardPhys : Nat
  ready : child.state = .ready

def spawnFnRequest (kernel : Kernel) (guardPhys stackTop : Nat) : SpawnRequest where
  child := Task.newKernel 0 stackTop kernel.currentPid
  inheritsFds := false
  guardPhys := guardPhys
  ready := rfl

/-- `spawn_user` (with `heapBrk = 0`) and `spawn_elf`. -/
def spawnUserRequest (kernel : Kernel) (guardPhys stackTop pageTablePhys heapBrk : Nat) :
    SpawnRequest where
  child := { Task.newUser 0 stackTop pageTablePhys kernel.currentPid with heapBrk := heapBrk }
  inheritsFds := false
  guardPhys := guardPhys
  ready := rfl

/-- `spawn_fork`; `none` is its early return when the current slot is empty.
The live `FS.base` is passed in. -/
def spawnForkRequest (kernel : Kernel) (guardPhys stackTop pageTablePhys fsBase : Nat) :
    Option SpawnRequest :=
  kernel.currentTask.map fun parent =>
    { child :=
        { Task.newUser 0 stackTop pageTablePhys kernel.currentPid with
          heapBrk := parent.heapBrk
          fdTable := parent.fdTable
          cwd := parent.cwd
          fsBase := fsBase }
      inheritsFds := true
      guardPhys := guardPhys
      ready := rfl }

/-- The body of the slot loop once a slot is found: the pid is drawn, inherited
pipe ends are counted, and the task is stored. -/
def install (kernel : Kernel) (slot : Slot) (request : SpawnRequest) : Kernel :=
  { kernel with
    nextPid := (kernel.nextPid + 1) % 2 ^ 64
    pool :=
      if request.inheritsFds then FdTable.dupAll kernel.pool request.child.fdTable
      else kernel.pool
    guardPhys := Function.update kernel.guardPhys slot request.guardPhys
    tasks := Function.update kernel.tasks slot
      (some { request.child with pid := kernel.nextPid }) }

/-- The writes of `execve_current` to the current task. -/
def execveTask (kernel : Kernel) (newPt heapStart : Nat) : Kernel :=
  kernel.modifyCurrent fun task =>
    { task with pageTablePhys := newPt, heapBrk := heapStart, fsBase := 0 }

def setFsBase (kernel : Kernel) (value : Nat) : Kernel :=
  kernel.modifyCurrent fun task => { task with fsBase := value }

end Kernel

end Ferrugem.SchedulerModel
