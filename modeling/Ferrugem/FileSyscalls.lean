import Ferrugem.DirectoryTree
import Ferrugem.SchedulerModel

/-!
# Files behind descriptors

The system calls of `kernel/src/syscall/mod.rs` that open, read, write and
position files and change the working directory, over the filesystem and the
`fd_table` and `cwd` of every task. The acting task is named by its slot, so a
sequence of actions is any interleaving of the tasks' calls.

`generation idx` counts the files and directories that have had the inode;
`opened fd` is the generation of the inode when the descriptor was opened on
it, and `entered` that of the working directory when it was set. These three
are history variables: no call reads them.
-/

namespace Ferrugem.FileSyscalls

open Ferrugem.ProcessModel Ferrugem.SchedulerModel Ferrugem.RamFsModel
open Ferrugem.DirectoryParents Ferrugem.DirectoryTree

set_option autoImplicit false

structure TaskFiles where
  fdTable : FdTable
  cwd : InodeIndex
  opened : Fd → Nat
  entered : Nat

def TaskFiles.new : TaskFiles where
  fdTable := FdTable.new
  cwd := rootInode
  opened := fun _ => 0
  entered := 0

structure FileKernel where
  fs : RamFs
  tasks : Slot → Option TaskFiles
  generation : InodeIndex → Nat

/-- A sys_read or sys_write through a file descriptor that moved bytes. -/
inductive FileEvent where
  | accessed (inode : InodeIndex) (opened current : Nat)
  deriving DecidableEq

def advance (before after : RamFs) (generation : InodeIndex → Nat) (idx : InodeIndex) : Nat :=
  if (before.inodes idx).used = false ∧ (after.inodes idx).used = true then generation idx + 1
  else generation idx

/-- `set_offset`. -/
def setOffset (table : FdTable) (fd offset : Nat) : FdTable :=
  if bound : fd < maxFds then
    match table ⟨fd, bound⟩ with
    | .vfsFile inode _ writable =>
        Function.update table ⟨fd, bound⟩ (.vfsFile inode offset writable)
    | _ => table
  else table

namespace TaskFiles

def openedAt (task : TaskFiles) (fd : Nat) : Nat :=
  if bound : fd < maxFds then task.opened ⟨fd, bound⟩ else 0

def withOffset (task : TaskFiles) (fd offset : Nat) : TaskFiles :=
  { task with fdTable := setOffset task.fdTable fd offset }

/-- `at_cwd`. A negative `dirfd` other than `AT_FDCWD` is a huge `usize`. -/
def atCwd (task : TaskFiles) (dirfd : Int) : InodeIndex :=
  if dirfd = -100 then task.cwd
  else
    match FdTable.get task.fdTable (dirfd % 2 ^ 64).toNat with
    | some (.vfsDir inode _) => if bound : inode < maxInodes then ⟨inode, bound⟩ else task.cwd
    | some (.vfsFile inode _ _) => if bound : inode < maxInodes then ⟨inode, bound⟩ else task.cwd
    | _ => task.cwd

end TaskFiles

def openDevPath (path : Bytes) : Option FdEntry :=
  if path = ascii ['/', 'd', 'e', 'v', '/', 'n', 'u', 'l', 'l'] then some .devNull
  else if path = ascii ['/', 'd', 'e', 'v', '/', 'z', 'e', 'r', 'o'] then some .devZero
  else if path = ascii ['/', 'd', 'e', 'v', '/', 'u', 'r', 'a', 'n', 'd', 'o', 'm'] ∨
      path = ascii ['/', 'd', 'e', 'v', '/', 'r', 'a', 'n', 'd', 'o', 'm'] ∨
      path = ascii ['/', 'd', 'e', 'v', '/', 'h', 'w', 'r', 'n', 'g'] then some .devUrandom
  else if path = ascii ['/', 'd', 'e', 'v', '/', 't', 't', 'y'] ∨
      path = ascii ['/', 'd', 'e', 'v', '/', 'c', 'o', 'n', 's', 'o', 'l', 'e'] then some .stdout
  else none

/-- `fs::open_dir`. -/
def openDir (fs : RamFs) (path : Bytes) (cwd : InodeIndex) : Option InodeIndex :=
  (fs.resolve path cwd).filter fun idx => (fs.inodes idx).kind == .dir

/-- `fs::inode_size`. -/
def inodeSize (fs : RamFs) (idx : InodeIndex) : Nat :=
  if (fs.inodes idx).used then (fs.inodes idx).size else 0

namespace FileKernel

def putTask (state : FileKernel) (slot : Slot) (task : TaskFiles) : FileKernel :=
  { state with tasks := Function.update state.tasks slot (some task) }

def withFs (state : FileKernel) (fs : RamFs) : FileKernel :=
  { state with fs := fs, generation := advance state.fs fs state.generation }

/-- `current_fd_alloc`, with the generation of what the entry denotes. -/
def fdAlloc (state : FileKernel) (slot : Slot) (task : TaskFiles) (entry : FdEntry)
    (generation : Nat) : FileKernel × Int :=
  match FdTable.alloc task.fdTable entry with
  | some (fd, table) =>
      (state.putTask slot
        { task with fdTable := table, opened := Function.update task.opened fd generation }, fd.val)
  | none => (state, -24)

/-- `sys_open` and `sys_openat` from the device check on; `cwd` is where they
resolve the path. -/
def openFrom (state : FileKernel) (slot : Slot) (task : TaskFiles) (cwd : InodeIndex)
    (path : Bytes) (flags : Nat) : FileKernel × Int :=
  match openDevPath path with
  | some device => state.fdAlloc slot task device 0
  | none =>
      let writable := flags.testBit 0 || flags.testBit 1
      let touched :=
        if flags.testBit 6 then state.withFs (state.fs.touch path cwd 0 0).1 else state
      match touched.fs.openCheck path cwd 0 0 writable with
      | some inode =>
          let truncated :=
            if flags.testBit 9 && writable then
              touched.withFs (touched.fs.inodeWrite inode 0 []).1
            else touched
          let offset :=
            if flags.testBit 10 && writable then inodeSize truncated.fs inode else 0
          truncated.fdAlloc slot task (.vfsFile inode.val offset writable)
            (truncated.generation inode)
      | none =>
          if writable then (touched, -2)
          else
            match openDir touched.fs path cwd with
            | some dir => touched.fdAlloc slot task (.vfsDir dir.val 0) (touched.generation dir)
            | none => (touched, -2)

def sysOpen (state : FileKernel) (slot : Slot) (task : TaskFiles) (path : Bytes) (flags : Nat) :
    FileKernel × Int :=
  if path = [] then (state, -2) else state.openFrom slot task task.cwd path flags

def sysOpenat (state : FileKernel) (slot : Slot) (task : TaskFiles) (dirfd : Int) (path : Bytes)
    (flags : Nat) : FileKernel × Int :=
  if path = [] then (state, -2) else state.openFrom slot task (task.atCwd dirfd) path flags

/-- `sys_read` on a file; other descriptors touch no file. -/
def sysRead (state : FileKernel) (slot : Slot) (task : TaskFiles) (fd length : Nat) :
    FileKernel × Option FileEvent :=
  match FdTable.get task.fdTable fd with
  | some (.vfsFile inode offset _) =>
      if bound : inode < maxInodes then
        let bytes := state.fs.inodeRead ⟨inode, bound⟩ offset length
        if bytes = [] then (state, none)
        else
          (state.putTask slot (task.withOffset fd (offset + bytes.length)),
            some (.accessed ⟨inode, bound⟩ (task.openedAt fd) (state.generation ⟨inode, bound⟩)))
      else (state, none)
  | _ => (state, none)

/-- `sys_write` on a file. -/
def sysWrite (state : FileKernel) (slot : Slot) (task : TaskFiles) (fd : Nat) (content : Bytes) :
    FileKernel × Option FileEvent :=
  match FdTable.get task.fdTable fd with
  | some (.vfsFile inode offset writable) =>
      if !writable then (state, none)
      else if bound : inode < maxInodes then
        let written := state.fs.inodeWrite ⟨inode, bound⟩ offset content
        if written.2 = 0 then (state, none)
        else
          ((state.withFs written.1).putTask slot (task.withOffset fd (offset + written.2)),
            some (.accessed ⟨inode, bound⟩ (task.openedAt fd) (state.generation ⟨inode, bound⟩)))
      else (state, none)
  | _ => (state, none)

/-- The value of an `i64` sum. -/
def wrapI64 (value : Int) : Int := (value + 2 ^ 63) % 2 ^ 64 - 2 ^ 63

def sysLseek (state : FileKernel) (slot : Slot) (task : TaskFiles) (fd : Nat) (offset : Int)
    (whence : Nat) : FileKernel :=
  match FdTable.get task.fdTable fd with
  | some (.vfsFile inode current _) =>
      let size := if bound : inode < maxInodes then inodeSize state.fs ⟨inode, bound⟩ else 0
      let target : Option Int :=
        match whence with
        | 0 => some offset
        | 1 => some (wrapI64 (wrapI64 current + offset))
        | 2 => some (wrapI64 (size + offset))
        | _ => none
      match target with
      | some position =>
          if position < 0 then state else state.putTask slot (task.withOffset fd position.toNat)
      | none => state
  | _ => state

def sysClose (state : FileKernel) (slot : Slot) (task : TaskFiles) (fd : Nat) : FileKernel :=
  match FdTable.close task.fdTable fd with
  | some (_, table) => state.putTask slot { task with fdTable := table }
  | none => state

def sysDup (state : FileKernel) (slot : Slot) (task : TaskFiles) (oldFd : Nat) : FileKernel :=
  match FdTable.get task.fdTable oldFd with
  | some entry => (state.fdAlloc slot task entry (task.openedAt oldFd)).1
  | none => state

def sysDup2 (state : FileKernel) (slot : Slot) (task : TaskFiles) (oldFd newFd : Nat) :
    FileKernel :=
  if oldFd = newFd then state
  else
    match FdTable.get task.fdTable oldFd with
    | some entry =>
        if bound : newFd < maxFds then
          state.putTask slot
            { task with
              fdTable := Function.update task.fdTable ⟨newFd, bound⟩ entry
              opened := Function.update task.opened ⟨newFd, bound⟩ (task.openedAt oldFd) }
        else state
    | none => state

def sysChdir (state : FileKernel) (slot : Slot) (task : TaskFiles) (path : Bytes) : FileKernel :=
  if path = [] then state
  else
    match openDir state.fs path task.cwd with
    | some dir => state.putTask slot { task with cwd := dir, entered := state.generation dir }
    | none => state

end FileKernel

/-- `allocOther` is a call that opens a descriptor on no file (a pipe end).
`change` is `sys_mkdir`, `sys_rmdir`, `sys_unlink`, their `at` variants, or a
command of the kernel's shell. -/
inductive FileAction where
  | sysOpen (slot : Slot) (path : Bytes) (flags : Nat)
  | sysOpenat (slot : Slot) (dirfd : Int) (path : Bytes) (flags : Nat)
  | sysRead (slot : Slot) (fd length : Nat)
  | sysWrite (slot : Slot) (fd : Nat) (content : Bytes)
  | sysLseek (slot : Slot) (fd : Nat) (offset : Int) (whence : Nat)
  | sysClose (slot : Slot) (fd : Nat)
  | sysDup (slot : Slot) (oldFd : Nat)
  | sysDup2 (slot : Slot) (oldFd newFd : Nat)
  | sysChdir (slot : Slot) (path : Bytes)
  | allocOther (slot : Slot) (entry : FdEntry)
  | change (operation : Operation)
  | spawn (slot : Slot)
  | fork (parent child : Slot)
  | exit (slot : Slot)
  | reap (slot : Slot)

def isFileEntry : FdEntry → Bool
  | .vfsFile _ _ _ => true
  | _ => false

namespace FileKernel

/-- A call of the task in the slot; an empty slot makes none. -/
def byTask (state : FileKernel) (slot : Slot)
    (call : TaskFiles → FileKernel × Option FileEvent) : FileKernel × Option FileEvent :=
  match state.tasks slot with
  | some task => call task
  | none => (state, none)

def step (state : FileKernel) : FileAction → FileKernel × Option FileEvent
  | .sysOpen slot path flags =>
      state.byTask slot fun task => ((state.sysOpen slot task path flags).1, none)
  | .sysOpenat slot dirfd path flags =>
      state.byTask slot fun task => ((state.sysOpenat slot task dirfd path flags).1, none)
  | .sysRead slot fd length => state.byTask slot fun task => state.sysRead slot task fd length
  | .sysWrite slot fd content => state.byTask slot fun task => state.sysWrite slot task fd content
  | .sysLseek slot fd offset whence =>
      state.byTask slot fun task => (state.sysLseek slot task fd offset whence, none)
  | .sysClose slot fd => state.byTask slot fun task => (state.sysClose slot task fd, none)
  | .sysDup slot oldFd => state.byTask slot fun task => (state.sysDup slot task oldFd, none)
  | .sysDup2 slot oldFd newFd =>
      state.byTask slot fun task => (state.sysDup2 slot task oldFd newFd, none)
  | .sysChdir slot path => state.byTask slot fun task => (state.sysChdir slot task path, none)
  | .allocOther slot entry =>
      state.byTask slot fun task =>
        (if isFileEntry entry then state else (state.fdAlloc slot task entry 0).1, none)
  | .change operation => (state.withFs (state.fs.apply operation).1, none)
  | .spawn slot => (state.putTask slot TaskFiles.new, none)
  | .fork parent child => state.byTask parent fun task => (state.putTask child task, none)
  | .exit slot =>
      state.byTask slot fun task => (state.putTask slot { task with fdTable := fun _ => .empty }, none)
  | .reap slot => ({ state with tasks := Function.update state.tasks slot none }, none)

end FileKernel

/-- Every interleaving of the tasks' calls from `fs::init`, with the idle task
in its slot. -/
def fileSystem (hello : Bytes) : EventSystem FileKernel FileAction FileEvent where
  init :=
    { fs := RamFs.init hello
      tasks := fun slot => if slot = idleSlot then some TaskFiles.new else none
      generation := fun _ => 0 }
  step := FileKernel.step

end Ferrugem.FileSyscalls
