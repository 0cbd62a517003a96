import Mathlib.Data.BitVec
import Ferrugem.PipePoolModel

/-!
# Tasks, signals and descriptor tables

`kernel/src/process/mod.rs`. A descriptor table is a function on the sixteen
descriptors. `pending_signals` is the `u32` mask of the source. Two fields of
the source's `Task` are absent here: `context`, which is written at creation
and never read, and `kernel_sp`, which the machine model represents by what it
points at (`Ferrugem.KernelMachine`).
-/

namespace Ferrugem.ProcessModel

open Ferrugem.PipePoolModel

set_option autoImplicit false

def sighup : Nat := 1
def sigint : Nat := 2
def sigquit : Nat := 3
def sigabrt : Nat := 6
def sigkill : Nat := 9
def sigterm : Nat := 15
def sigchld : Nat := 17

def sigBit (sig : Nat) : BitVec 32 :=
  if sig = 0 ∨ 31 < sig then 0 else 1#32 <<< (sig - 1)

def maxFds : Nat := 16

abbrev Fd := Fin maxFds

inductive FdEntry where
  | empty
  | stdin
  | stdout
  | stderr
  | vfsFile (inode offset : Nat) (writable : Bool)
  | vfsDir (inode pos : Nat)
  | pipeRead (idx : Nat)
  | pipeWrite (idx : Nat)
  | socketPair (readIdx writeIdx : Nat)
  | devNull
  | devZero
  | devUrandom
  deriving DecidableEq

abbrev FdTable := Fd → FdEntry

/-- What `alloc_at` and `close_all` do with the entry they drop. -/
def releaseEntry (pool : Pool) : FdEntry → Pool
  | .pipeRead idx => closePipeRead pool idx
  | .pipeWrite idx => closePipeWrite pool idx
  | .socketPair readIdx writeIdx => closePipeWrite (closePipeRead pool readIdx) writeIdx
  | _ => pool

/-- What `spawn_fork` does with each entry the child inherits. -/
def dupEntry (pool : Pool) : FdEntry → Pool
  | .pipeRead idx => dupPipeRead pool idx
  | .pipeWrite idx => dupPipeWrite pool idx
  | .socketPair readIdx writeIdx => dupPipeWrite (dupPipeRead pool readIdx) writeIdx
  | _ => pool

namespace FdTable

def new : FdTable := fun fd =>
  if fd.val = 0 then .stdin
  else if fd.val = 1 then .stdout
  else if fd.val = 2 then .stderr
  else .empty

def freeFd (table : FdTable) : Option Fd :=
  ((List.finRange maxFds).drop 3).find? fun fd => table fd == .empty

def alloc (table : FdTable) (entry : FdEntry) : Option (Fd × FdTable) :=
  (freeFd table).map fun fd => (fd, Function.update table fd entry)

def get (table : FdTable) (fd : Nat) : Option FdEntry :=
  if bound : fd < maxFds then
    match table ⟨fd, bound⟩ with
    | .empty => none
    | entry => some entry
  else none

/-- Installs `entry` at `fd`, releasing what was there. -/
def allocAt (pool : Pool) (table : FdTable) (fd : Nat) (entry : FdEntry) :
    Option (Pool × FdTable) :=
  if bound : fd < maxFds then
    some (releaseEntry pool (table ⟨fd, bound⟩), Function.update table ⟨fd, bound⟩ entry)
  else none

/-- Frees one descriptor; releasing the returned entry is the caller's duty. -/
def close (table : FdTable) (fd : Nat) : Option (FdEntry × FdTable) :=
  if bound : fd < maxFds then
    match table ⟨fd, bound⟩ with
    | .empty => none
    | entry => some (entry, Function.update table ⟨fd, bound⟩ .empty)
  else none

/-- The pool after `close_all`; the table itself becomes all empty. -/
def closeAll (pool : Pool) (table : FdTable) : Pool :=
  (List.finRange maxFds).foldl (fun pool fd => releaseEntry pool (table fd)) pool

/-- The pool after `spawn_fork` has counted the inherited entries. -/
def dupAll (pool : Pool) (table : FdTable) : Pool :=
  (List.finRange maxFds).foldl (fun pool fd => dupEntry pool (table fd)) pool

end FdTable

inductive TaskState where
  | ready
  | running
  | blocked
  | zombie
  deriving DecidableEq

structure Task where
  pid : Nat
  ppid : Nat
  state : TaskState
  stackTop : Nat
  exitCode : BitVec 32
  isUser : Bool
  pageTablePhys : Nat
  pendingSignals : BitVec 32
  waitingForPid : Nat
  heapBrk : Nat
  fdTable : FdTable
  cwd : Nat
  fsBase : Nat

namespace Task

def newKernel (pid stackTop ppid : Nat) : Task where
  pid := pid
  ppid := ppid
  state := .ready
  stackTop := stackTop
  exitCode := 0
  isUser := false
  pageTablePhys := 0
  pendingSignals := 0
  waitingForPid := 0
  heapBrk := 0
  fdTable := FdTable.new
  cwd := 0
  fsBase := 0

def newUser (pid stackTop pageTablePhys ppid : Nat) : Task :=
  { newKernel pid stackTop ppid with isUser := true, pageTablePhys := pageTablePhys }

def idle : Task := newKernel 0 0 0

/-- `Task::exit`, with the pool that `close_all` releases into. -/
def exit (pool : Pool) (task : Task) (code : BitVec 32) : Pool × Task :=
  (FdTable.closeAll pool task.fdTable,
    { task with fdTable := fun _ => .empty, exitCode := code, state := .zombie })

def raiseSignal (task : Task) (sig : Nat) : Task :=
  { task with pendingSignals := task.pendingSignals ||| sigBit sig }

def hasSignal (task : Task) (sig : Nat) : Bool := task.pendingSignals &&& sigBit sig != 0

def clearSignal (task : Task) (sig : Nat) : Task :=
  { task with pendingSignals := task.pendingSignals &&& ~~~sigBit sig }

/-- `take_signal`: the signal is cleared when it was pending. -/
def takeSignal (task : Task) (sig : Nat) : Bool × Task :=
  if task.hasSignal sig then (true, task.clearSignal sig) else (false, task)

/-- The short-circuit `||` chain of `deliver_all_signals`: the first pending
signal of the list is taken and the rest stay pending. -/
def takeFirst (task : Task) : List Nat → Bool × Task
  | [] => (false, task)
  | sig :: rest =>
      if task.hasSignal sig then (true, task.clearSignal sig) else takeFirst task rest

end Task

def lethalSignals : List Nat := [sigkill, sigabrt, sigquit, sigterm, sigint]

end Ferrugem.ProcessModel
