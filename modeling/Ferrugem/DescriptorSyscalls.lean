import Ferrugem.SchedulerModel

/-!
# Descriptor system calls

The system calls of `kernel/src/syscall/mod.rs` that create, copy, drop or use
pipe descriptors. Each returns the new kernel state and the `isize` result.
Bytes and descriptor numbers the source stores through a user pointer are part
of the result where a later step depends on them; a null pointer is `0`.
Descriptors of other kinds do not touch the scheduler or the pool, so the read
and write calls return the source's constant for them where it has one and
otherwise leave the state alone.
-/

namespace Ferrugem.DescriptorSyscalls

open Ferrugem.PipePoolModel Ferrugem.ProcessModel Ferrugem.SchedulerModel

set_option autoImplicit false

def currentFdGet (kernel : Kernel) (fd : Nat) : Option FdEntry :=
  kernel.currentTask.bind fun task => FdTable.get task.fdTable fd

/-- `current_fd_alloc`: the state after the attempt and the descriptor. -/
def currentFdAlloc (kernel : Kernel) (entry : FdEntry) : Kernel × Option Fd :=
  match kernel.currentTask with
  | none => (kernel, none)
  | some task =>
      match FdTable.alloc task.fdTable entry with
      | none => (kernel, none)
      | some (fd, table) =>
          (kernel.setTask kernel.current { task with fdTable := table }, some fd)

def currentFdClose (kernel : Kernel) (fd : Nat) : Kernel × Option FdEntry :=
  match kernel.currentTask with
  | none => (kernel, none)
  | some task =>
      match FdTable.close task.fdTable fd with
      | none => (kernel, none)
      | some (entry, table) =>
          (kernel.setTask kernel.current { task with fdTable := table }, some entry)

def currentFdDup (kernel : Kernel) (oldFd : Nat) : Kernel × Option Fd :=
  match currentFdGet kernel oldFd with
  | none => (kernel, none)
  | some entry => currentFdAlloc kernel entry

def currentFdDup2 (kernel : Kernel) (oldFd newFd : Nat) : Kernel × Option Nat :=
  match kernel.currentTask with
  | none => (kernel, none)
  | some task =>
      match FdTable.get task.fdTable oldFd with
      | none => (kernel, none)
      | some entry =>
          match FdTable.allocAt kernel.pool task.fdTable newFd entry with
          | none => (kernel, none)
          | some (pool, table) =>
              ({ kernel with pool := pool }.setTask kernel.current
                { task with fdTable := table }, some newFd)

def closePipe (kernel : Kernel) (idx : Nat) : Kernel :=
  { kernel with pool := closePipeWrite (closePipeRead kernel.pool idx) idx }

/-- `sys_pipe`; the two descriptors are what it stores through `fds_ptr`. -/
def sysPipe (kernel : Kernel) (fdsPtr : Nat) : Kernel × Int :=
  if fdsPtr = 0 then (kernel, -14)
  else
    match allocPipe kernel.pool with
    | none => (kernel, -24)
    | some (idx, pool) =>
        let opened := { kernel with pool := pool }
        let reading := currentFdAlloc opened (.pipeRead idx.val)
        let writing := currentFdAlloc reading.1 (.pipeWrite idx.val)
        match reading.2, writing.2 with
        | some _, some _ => (writing.1, 0)
        | _, _ => (closePipe writing.1 idx.val, -24)

/-- `sys_socketpair`. Its failure branch closes three of the four pipe ends it
opened, in the order of the source. -/
def sysSocketpair (kernel : Kernel) (svPtr : Nat) : Kernel × Int :=
  if svPtr = 0 then (kernel, -14)
  else
    match allocPipe kernel.pool with
    | none => (kernel, -24)
    | some (a, poolA) =>
        match allocPipe poolA with
        | none => (closePipe { kernel with pool := poolA } a.val, -24)
        | some (b, poolB) =>
            let opened := { kernel with pool := poolB }
            let first := currentFdAlloc opened (.socketPair a.val b.val)
            let second := currentFdAlloc first.1 (.socketPair b.val a.val)
            match first.2, second.2 with
            | some _, some _ => (second.1, 0)
            | _, _ =>
                ({ second.1 with
                  pool := closePipeRead
                    (closePipeWrite (closePipeRead second.1.pool a.val) b.val) b.val }, -24)

def fdResult : Option Nat → Int
  | some fd => fd
  | none => -9

def sysDup (kernel : Kernel) (oldFd : Nat) : Kernel × Int :=
  let result := currentFdDup kernel oldFd
  (result.1, fdResult (result.2.map Fin.val))

def sysDup2 (kernel : Kernel) (oldFd newFd : Nat) : Kernel × Int :=
  if oldFd = newFd then (kernel, fdResult ((currentFdGet kernel oldFd).map fun _ => oldFd))
  else
    let result := currentFdDup2 kernel oldFd newFd
    (result.1, fdResult result.2)

def sysFcntl (kernel : Kernel) (fd cmd : Nat) : Kernel × Int :=
  match currentFdGet kernel fd with
  | none => (kernel, -9)
  | some _ =>
      match cmd with
      | 0 => sysDup kernel fd
      | 1 => (kernel, 0)
      | 2 => (kernel, 0)
      | 3 => (kernel, 2)
      | 4 => (kernel, 0)
      | _ => (kernel, -22)

/-- The wake-up `sys_close` makes after it drops a write end. -/
def wakeIfWriteClosed (kernel : Kernel) (idx : Nat) : Kernel :=
  if pipeWriteOpen kernel.pool idx then kernel else kernel.wakePipeWaiter idx

def sysClose (kernel : Kernel) (fd : Nat) : Kernel × Int :=
  match currentFdClose kernel fd with
  | (_, none) => (kernel, -9)
  | (closed, some entry) =>
      match entry with
      | .pipeRead idx => ({ closed with pool := closePipeRead closed.pool idx }, 0)
      | .pipeWrite idx =>
          (wakeIfWriteClosed { closed with pool := closePipeWrite closed.pool idx } idx, 0)
      | .socketPair readIdx writeIdx =>
          (wakeIfWriteClosed
            { closed with
              pool := closePipeWrite (closePipeRead closed.pool readIdx) writeIdx }
            writeIdx, 0)
      | _ => (closed, 0)

def readPipe : FdEntry → Option Nat
  | .pipeRead idx => some idx
  | .socketPair readIdx _ => some readIdx
  | _ => none

def writePipe : FdEntry → Option Nat
  | .pipeWrite idx => some idx
  | .socketPair _ writeIdx => some writeIdx
  | _ => none

/-- One round of the `sys_read` loop on a pipe or socket pair, up to its
`block_on_pipe`. `none` as a result means that the loop goes on. -/
def sysReadPipe (kernel : Kernel) (fd length : Nat) : Kernel × Option (List UInt8) :=
  if length = 0 then (kernel, some [])
  else
    match (currentFdGet kernel fd).bind readPipe with
    | none => (kernel, some [])
    | some idx =>
        let result := pipeRead kernel.pool idx length
        let after := { kernel with pool := result.1 }
        if result.2 ≠ [] then (after, some result.2)
        else if pipeWriteOpen after.pool idx then (after, none)
        else (after, some [])

/-- `sys_write` on a pipe or socket pair. -/
def sysWritePipe (kernel : Kernel) (fd : Nat) (data : List UInt8) : Kernel × Int :=
  if data = [] then (kernel, 0)
  else
    match (currentFdGet kernel fd).bind writePipe with
    | none => (kernel, -9)
    | some idx =>
        if !pipeReadOpen kernel.pool idx then (kernel, -32)
        else
          let result := pipeWrite kernel.pool idx data
          let after := { kernel with pool := result.1 }
          (if 0 < result.2 then after.wakePipeWaiter idx else after, result.2)

def isFatal (sig : Nat) : Bool := [sigkill, sigterm, sigabrt, sigquit, sighup].contains sig

def endsCaller (kernel : Kernel) (targetPid sig : Nat) : Bool :=
  decide (0 < sig) && isFatal sig && (targetPid == kernel.currentPid || targetPid == 0)

/-- `sys_kill` from `raise_signal_to_pid` on. A caller that ends itself gets there only
after `exit_current`, as a zombie. -/
def sysRaise (kernel : Kernel) (targetPid sig : Nat) : Kernel :=
  if endsCaller kernel targetPid sig ∧ ¬kernel.vacant kernel.current then kernel
  else (kernel.raiseSignalToPid targetPid sig).1

end Ferrugem.DescriptorSyscalls
