import Ferrugem.Library.EventSystem
import Ferrugem.DescriptorSyscalls

/-!
# The machine: contexts, interrupts and the context switch

One x86_64 processor running the kernel of `Ferrugem.SchedulerModel`. A kernel
stack is represented by what lies on it: a task that has not run yet (`fresh`),
or a `schedule()` call suspended inside `context_switch`, with the locals that
call goes on to use. `savedStacks slot` is what `TASKS[slot].kernel_sp` points at.

An action is one section of code. The running context may take its sections in
any order, which contains every order the source can produce; an interrupt needs
`IF = 1`. The system call path is the `SYSCALL` one, whose entry clears `IF`, so
that no interrupt comes inside a section there. Kernel tasks and calls through
`INT 0x80` keep `IF = 1`: what an interrupt inside a section changes for them is
in `Ferrugem.PreemptedCalls`, which takes the same machine statement by statement.
An action that the machine cannot take in its present state changes nothing.

`fsAtSwitch`, `execRsp` and `blockedOn` are history variables: no transition
reads them, except that a call that has set up an `execve` redirect does
nothing more before its `sysretq`.
-/

namespace Ferrugem.KernelMachine

open Ferrugem.PipePoolModel Ferrugem.ProcessModel Ferrugem.SchedulerModel
open Ferrugem.DescriptorSyscalls

set_option autoImplicit false

/-- A `SYSCALL` in progress: the user `RSP` at its entry, and the stack pointer
its own successful `execve` produced. -/
structure SyscallFrame where
  entryRsp : Nat
  execRsp : Option Nat
  deriving DecidableEq

/-- A task creation in progress: its gathered data, then also its slot. -/
inductive Spawning where
  | gathered (request : Kernel.SpawnRequest) (userRsp : Nat)
  | chosen (slot : Slot) (request : Kernel.SpawnRequest) (userRsp : Nat)

def Spawning.slot : Spawning → Option Slot
  | .gathered _ _ => none
  | .chosen slot _ _ => some slot

/-- A statement of a kernel function that interrupts may come before, or what is left
of a loop of it. -/
inductive Stage where
  | raiseSearch (targetPid sig : Nat) (slots : List Slot)
  | raise (slot : Slot) (sig : Nat)
  | killTest (slot : Slot)
  | testBlocked (slot : Slot)
  | storeReady (slot : Slot)
  | loadPipeWaiter (idx : Nat)
  | clearPipeWaiter (idx : Nat)
  | closedSearch (indices : List PipeIndex)
  | childSearch (exitingPid parentPid : Nat) (slots : List Slot)
  | clearWait (slot : Slot)
  | parentSearch (parentPid : Nat) (slots : List Slot)
  | closeFds (fds : List Fd)
  | storeExitCode (code : BitVec 32)
  | storeZombie
  | schedule
  | pipeWrite (idx : Nat) (data : List UInt8)
  | putBytes (index : PipeIndex) (data : List UInt8) (written : Bool)
  | storeByte (index : PipeIndex) (byte : UInt8)
  | storeHead (index : PipeIndex) (next : Fin pipeBuf)
  | closeFd (fd : Nat)
  | releaseEntry (entry : FdEntry)
  | wakeIfWriteClosed (idx : Nat)

/-- The slot loop of a creation path, and the statements once a slot is found: `pid` is
the value of `NEXT_PID` that the new task gets, `loaded` the one that its increment
starts from. -/
inductive CreationPoint where
  | searching (slots : List Slot)
  | reading (slot : Slot)
  | adding (slot : Slot) (pid : Nat)
  | storing (slot : Slot) (pid loaded : Nat)
  | counting (slot : Slot) (pid : Nat) (fds : List Fd)
  | installing (slot : Slot) (pid : Nat)

/-- What is left of a kernel function that was taken statement by statement. -/
inductive Progress where
  | statements (stages : List Stage)
  | creating (request : Kernel.SpawnRequest) (userRsp : Nat) (point : CreationPoint)

/-- Either `spawning` or `progress` holds the call in progress: the first where calls
are taken section by section, the second in `Ferrugem.PreemptedCalls`. -/
structure Context where
  userRsp : Nat
  syscall : Option SyscallFrame
  spawning : Option Spawning
  progress : Progress

def Context.entering (userRsp : Nat) : Context where
  userRsp := userRsp
  syscall := none
  spawning := none
  progress := .statements []

/-- A suspended `schedule()` call. `next` and `irqsOn` are its locals, `irqsOn`
being the interrupt flag its caller sees on return. -/
structure ScheduleFrame where
  next : Slot
  irqsOn : Bool
  fsAtSwitch : Nat
  context : Context

inductive SavedStack where
  | fresh (context : Context) (irqsOn : Bool)
  | suspended (frame : ScheduleFrame)

/-- The context that runs when the stack is switched to. -/
def SavedStack.context : SavedStack → Context
  | .fresh context _ => context
  | .suspended frame => frame.context

inductive WaitReason where
  | tty
  | pipe (idx : Nat)
  | child
  deriving DecidableEq

structure Machine where
  kernel : Kernel
  halted : Bool
  irqsOn : Bool
  fsBase : Nat
  cr3 : Nat
  kernelRsp : Nat
  syscallUserRsp : Nat
  execCtx : Option (Nat × Nat × Nat)
  running : Context
  savedStacks : Slot → SavedStack
  blockedOn : Slot → Option WaitReason

inductive Event where
  | resumed (slot : Slot) (switchedOut : Nat) (loaded : Option Nat)
  | sysret (slot : Slot) (expected loaded : Nat)
  | installed (slot current : Slot)
  | reaped (parentPid pid : Nat) (status : BitVec 32)
  deriving DecidableEq

/-- The boot processor after `scheduler::init`, running as the idle task. -/
def bootMachine : Machine where
  kernel := boot
  halted := false
  irqsOn := true
  fsBase := 0
  cr3 := 0
  kernelRsp := 0
  syscallUserRsp := 0
  execCtx := none
  running := Context.entering 0
  savedStacks := fun _ => .fresh (Context.entering 0) true
  blockedOn := fun _ => none

namespace Machine

def withKernel (machine : Machine) (kernel : Kernel) : Machine :=
  { machine with kernel := kernel }

/-- A section whose `unwrap` may meet an empty slot. -/
def withKernelOrHalt (machine : Machine) : Option Kernel → Machine
  | some kernel => machine.withKernel kernel
  | none => { machine with halted := true }

/-- The rest of a `schedule()` call in the frame of the incoming task: the
first entry of a new task, or the statements after `context_switch`, which use
the `next` that the suspended call had chosen. -/
def resume (machine : Machine) (slot : Slot) : SavedStack → Machine × Option Event
  | .fresh context irqsOn => ({ machine with running := context, irqsOn := irqsOn }, none)
  | .suspended frame =>
      match machine.kernel.tasks frame.next with
      | some task =>
          ({ machine with
              running := frame.context
              irqsOn := frame.irqsOn
              fsBase := task.fsBase },
            some (.resumed slot frame.fsAtSwitch (some task.fsBase)))
      | none =>
          ({ machine with running := frame.context, halted := true },
            some (.resumed slot frame.fsAtSwitch none))

/-- The state at `context_switch`: `CURRENT`, the kernel stack and the address
space are those of the incoming task, and the outgoing task's `FS.base` and
stack are saved. -/
def switchOut (machine : Machine) (next : Slot) (prevTask nextTask : Task) : Machine :=
  { machine with
    kernel := { machine.kernel.setTask machine.kernel.current
      { prevTask with fsBase := machine.fsBase } with current := next }
    kernelRsp := if nextTask.isUser then nextTask.stackTop else 0
    cr3 := nextTask.pageTablePhys
    savedStacks := Function.update machine.savedStacks machine.kernel.current (.suspended
      { next := next
        irqsOn := machine.irqsOn
        fsAtSwitch := machine.fsBase
        context := machine.running }) }

def schedule (machine : Machine) : Machine × Option Event :=
  let next := machine.kernel.pickNext
  if next = machine.kernel.current then (machine, none)
  else
    match machine.kernel.tasks next, machine.kernel.currentTask with
    | some nextTask, some prevTask =>
        (machine.switchOut next prevTask nextTask).resume next (machine.savedStacks next)
    | _, _ => ({ machine with halted := true }, none)

/-- `tick` up to its `schedule()`. -/
def tickCounted (machine : Machine) : Machine :=
  let count := (machine.kernel.tickCount + 1) % 2 ^ 64
  let counted := { machine.kernel with tickCount := count }
  machine.withKernel (if count % 5 = 0 then counted.deliverAllSignals else counted)

def tick (machine : Machine) : Machine × Option Event :=
  if machine.tickCounted.kernel.tickCount % 10 = 0 then machine.tickCounted.schedule
  else (machine.tickCounted, none)

/-- The three blocking sections record why the task is blocked. -/
def blocking (machine : Machine) (reason : WaitReason) (outcome : Option Kernel) : Machine :=
  { machine.withKernelOrHalt outcome with
    blockedOn := Function.update machine.blockedOn machine.kernel.current (some reason) }

def waitpid (machine : Machine) (target : Nat) (noHang : Bool) : Machine × Option Event :=
  match machine.kernel.waitpid target noHang with
  | none => ({ machine with halted := true }, none)
  | some (kernel, .reaped pid status) =>
      (machine.withKernel kernel, some (.reaped machine.kernel.currentPid pid status))
  | some (kernel, .blocked) => (machine.blocking .child (some kernel), none)
  | some (kernel, _) => (machine.withKernel kernel, none)

def blockOnTty (machine : Machine) (hasInput : Bool) : Machine :=
  if hasInput then machine else machine.blocking .tty (machine.kernel.blockOnTty hasInput)

def blockOnPipe (machine : Machine) (idx : Nat) : Machine :=
  if machine.kernel.mustBlockOnPipe idx then
    machine.blocking (.pipe idx) (machine.kernel.blockOnPipe idx)
  else machine

/-- Which creation path, with the frames and addresses it obtained. -/
inductive SpawnKind where
  | kernelFn (guardPhys stackTop : Nat)
  | user (guardPhys stackTop pageTablePhys heapBrk userRsp : Nat)
  | fork (guardPhys stackTop pageTablePhys userRsp : Nat)
  deriving DecidableEq

def spawnRequest (machine : Machine) : SpawnKind → Option (Kernel.SpawnRequest × Nat)
  | .kernelFn guardPhys stackTop =>
      some (machine.kernel.spawnFnRequest guardPhys stackTop, 0)
  | .user guardPhys stackTop pageTablePhys heapBrk userRsp =>
      some (machine.kernel.spawnUserRequest guardPhys stackTop pageTablePhys heapBrk, userRsp)
  | .fork guardPhys stackTop pageTablePhys userRsp =>
      (machine.kernel.spawnForkRequest guardPhys stackTop pageTablePhys machine.fsBase).map
        fun request => (request, userRsp)

def setSpawning (machine : Machine) (spawning : Option Spawning) : Machine :=
  { machine with running := { machine.running with spawning := spawning } }

def spawnGather (machine : Machine) (kind : SpawnKind) : Machine :=
  machine.setSpawning ((machine.spawnRequest kind).map fun pair => .gathered pair.1 pair.2)

def spawnChoose (machine : Machine) : Machine :=
  match machine.running.spawning with
  | some (.gathered request userRsp) =>
      machine.setSpawning (machine.kernel.firstVacant.map fun slot =>
        .chosen slot request userRsp)
  | _ => machine

/-- A new user task enters ring 3 with interrupts on; a new kernel task is
entered by `ret` with the flag that `schedule` had cleared. -/
def spawnInstall (machine : Machine) : Machine × Option Event :=
  match machine.running.spawning with
  | some (.chosen slot request userRsp) =>
      ({ machine.setSpawning none with
          kernel := machine.kernel.install slot request
          savedStacks := Function.update machine.savedStacks slot
            (.fresh (Context.entering userRsp) request.child.isUser) },
        some (.installed slot machine.kernel.current))
  | _ => (machine, none)

/-- `execve_current` and `set_exec_ctx`, reached through `SYSCALL`. -/
def execve (machine : Machine) (newIp newSp newPt heapStart : Nat) : Machine :=
  match machine.running.syscall with
  | some frame =>
      { machine with
        kernel := machine.kernel.execveTask newPt heapStart
        fsBase := 0
        execCtx := some (newIp, newSp, newPt)
        running := { machine.running with syscall := some { frame with execRsp := some newSp } } }
  | none => machine

def userStack (machine : Machine) (rsp : Nat) : Machine :=
  match machine.running.syscall with
  | some _ => machine
  | none => { machine with running := { machine.running with userRsp := rsp } }

/-- The `SYSCALL` instruction and the first instructions of
`syscall_entry_asm`. -/
def syscallEntry (machine : Machine) : Machine :=
  match machine.running.syscall, machine.kernel.currentTask with
  | none, some task =>
      if task.isUser then
        { machine with
          irqsOn := false
          syscallUserRsp := machine.running.userRsp
          running :=
            { machine.running with
              syscall := some { entryRsp := machine.running.userRsp, execRsp := none } } }
      else machine
  | _, _ => machine

/-- `apply_exec_redirect_syscall`. -/
def applyExecRedirect (machine : Machine) : Machine :=
  match machine.execCtx with
  | some (_, newSp, newPt) =>
      { machine with execCtx := none, syscallUserRsp := newSp, cr3 := newPt }
  | none => machine

/-- The end of `syscall_entry_asm`: the redirect, then `RSP` from the global
and `sysretq` with `IF` forced to one. -/
def sysret (machine : Machine) : Machine × Option Event :=
  match machine.running.syscall with
  | some frame =>
      let redirected := machine.applyExecRedirect
      ({ redirected with
          irqsOn := true
          running :=
            { redirected.running with
              userRsp := redirected.syscallUserRsp
              syscall := none } },
        some (.sysret machine.kernel.current (frame.execRsp.getD frame.entryRsp)
          redirected.syscallUserRsp))
  | none => (machine, none)

end Machine

inductive Action where
  | tick
  | ttyInput
  | schedule
  | exitMark (code : BitVec 32)
  | wakeChildWaiters (exitingPid parentPid : Nat)
  | signalParent (parentPid : Nat)
  | wakeClosedPipeReaders
  | waitpid (target : Nat) (noHang : Bool)
  | blockOnTty (hasInput : Bool)
  | blockOnPipe (idx : Nat)
  | readPipe (fd length : Nat)
  | writePipe (fd : Nat) (data : List UInt8)
  | raiseSignal (targetPid sig : Nat)
  | killTask (slot : Slot)
  | pipe (fdsPtr : Nat)
  | socketpair (svPtr : Nat)
  | dup (fd : Nat)
  | dup2 (oldFd newFd : Nat)
  | fcntl (fd cmd : Nat)
  | close (fd : Nat)
  | spawnGather (kind : Machine.SpawnKind)
  | spawnChoose
  | spawnInstall
  | setFsBase (value : Nat)
  | writeFsBase (value : Nat)
  | execve (newIp newSp newPt heapStart : Nat)
  | userStack (rsp : Nat)
  | syscallEntry
  | sysret
  deriving DecidableEq

/-- The call has set up its redirect and only returns now. -/
def Machine.returning (machine : Machine) : Bool :=
  machine.running.syscall.any fun frame => frame.execRsp.isSome

def Machine.perform (machine : Machine) : Action → Machine × Option Event
  | .tick => if machine.irqsOn then machine.tick else (machine, none)
  | .ttyInput =>
      (if machine.irqsOn then machine.withKernel machine.kernel.wakeTtyWaiter else machine, none)
  | .schedule => machine.schedule
  | .exitMark code => (machine.withKernel (machine.kernel.exitMark code), none)
  | .wakeChildWaiters exitingPid parentPid =>
      (machine.withKernel (machine.kernel.wakeChildWaiters exitingPid parentPid), none)
  | .signalParent parentPid =>
      (machine.withKernel (machine.kernel.signalParent parentPid sigchld), none)
  | .wakeClosedPipeReaders => (machine.withKernel machine.kernel.wakeClosedPipeReaders, none)
  | .waitpid target noHang => machine.waitpid target noHang
  | .blockOnTty hasInput => (machine.blockOnTty hasInput, none)
  | .blockOnPipe idx => (machine.blockOnPipe idx, none)
  | .readPipe fd length => (machine.withKernel (sysReadPipe machine.kernel fd length).1, none)
  | .writePipe fd data => (machine.withKernel (sysWritePipe machine.kernel fd data).1, none)
  | .raiseSignal targetPid sig =>
      (machine.withKernel (sysRaise machine.kernel targetPid sig), none)
  | .killTask slot => (machine.withKernel (machine.kernel.killTask slot).1, none)
  | .pipe fdsPtr => (machine.withKernel (sysPipe machine.kernel fdsPtr).1, none)
  | .socketpair svPtr => (machine.withKernel (sysSocketpair machine.kernel svPtr).1, none)
  | .dup fd => (machine.withKernel (sysDup machine.kernel fd).1, none)
  | .dup2 oldFd newFd => (machine.withKernel (sysDup2 machine.kernel oldFd newFd).1, none)
  | .fcntl fd cmd => (machine.withKernel (sysFcntl machine.kernel fd cmd).1, none)
  | .close fd => (machine.withKernel (sysClose machine.kernel fd).1, none)
  | .spawnGather kind => (machine.spawnGather kind, none)
  | .spawnChoose => (machine.spawnChoose, none)
  | .spawnInstall => machine.spawnInstall
  | .setFsBase value => (machine.withKernel (machine.kernel.setFsBase value), none)
  | .writeFsBase value => ({ machine with fsBase := value }, none)
  | .execve newIp newSp newPt heapStart => (machine.execve newIp newSp newPt heapStart, none)
  | .userStack rsp => (machine.userStack rsp, none)
  | .syscallEntry => (machine.syscallEntry, none)
  | .sysret => machine.sysret

def Machine.step (machine : Machine) (action : Action) : Machine × Option Event :=
  if machine.halted then (machine, none)
  else if machine.returning ∧ action ≠ .sysret then (machine, none)
  else machine.perform action

/-- Every interleaving of code sections, interrupts and user code from boot. -/
def kernelSystem : EventSystem Machine Action Event where
  init := bootMachine
  step := Machine.step

end Ferrugem.KernelMachine
