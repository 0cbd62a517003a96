import Ferrugem.ElfLoaderModel
import Ferrugem.SchedulerModel

/-!
# Creating and growing address spaces

The functions of `kernel/src/scheduler/mod.rs` and `kernel/src/syscall/mod.rs`
that create, copy, replace or grow the address space of a task on x86_64, over
the scheduler state and physical memory. What the source reads from the calling
process or the processor is an argument: the strings of `execve`, the saved
registers of `fork`, `FS.base` and the seed for `AT_RANDOM`. The word at the
bottom of a kernel stack is written but never checked here.
-/

namespace Ferrugem.AddressSpaceModel

open Ferrugem.ProcessModel Ferrugem.SchedulerModel Ferrugem.PagingModel Ferrugem.ElfLoaderModel

set_option autoImplicit false

def stackPages : Nat := 8
def stackSize : Nat := stackPages * pageSize
def guardSize : Nat := pageSize
def userStackPages : Nat := 8
def userStackSize : Nat := userStackPages * pageSize
def maxExecVec : Nat := 64
def guardCanary : BitVec 64 := 0xDEADC0DEDEADC0DE#64
def userCodeSel : BitVec 64 := 0x23#64
def userDataSel : BitVec 64 := 0x1B#64

section

variable {Store : Type}

/-- The two string loops of `setup_abi_stack`: the strings go down from `off`,
and the result is their addresses with the offset of the last one. -/
def pushStrings (regionPhys regionVa : Nat) : List Bytes → Nat → Paging Store (List Nat × Nat)
  | [], off => pure ([], off)
  | bytes :: rest, off =>
      if off < bytes.length + 1 then Fallible.fail
      else do
        let next := (off - (bytes.length + 1)) / 8 * 8
        writeBytes (regionPhys + next) (bytes ++ [0#8])
        let pushed ← pushStrings regionPhys regionVa rest next
        pure ((regionVa + next) :: pushed.1, pushed.2)

/-- The table from `argc` to `AT_NULL`. -/
def abiTable (argvVa envpVa : List Nat) (image : LoadedImage) (randVa : Nat) :
    List (BitVec 64) :=
  ([argvVa.length] ++ argvVa ++ [0] ++ envpVa ++ [0] ++
    [3, image.phdrVa, 4, image.phentsize, 5, image.phnum, 6, 4096, 11, 0, 12, 0, 13, 0, 14, 0,
      23, 0, 25, randVa, 0, 0]).map (BitVec.ofNat 64)

def setupAbiStack (regionPhys regionSize stackTopVa : Nat) (argv0 : Bytes)
    (argv envp : List Bytes) (image : LoadedImage) (seed : BitVec 64) : Paging Store Nat := do
  let regionVa := stackTopVa - regionSize
  let argv := if argv.isEmpty then [argv0] else argv
  let randOff := regionSize - 16
  writeWord (regionPhys + randOff) seed
  writeWord (regionPhys + (randOff + 8)) (seed ^^^ 0xDEADBEEFCAFE1234#64)
  let pushedArgv ← pushStrings regionPhys regionVa (argv.take maxExecVec) randOff
  let pushedEnvp ← pushStrings regionPhys regionVa (envp.take maxExecVec) pushedArgv.2
  let table := abiTable pushedArgv.1 pushedEnvp.1 image (regionVa + randOff)
  if pushedEnvp.2 < table.length * 8 then Fallible.fail
  else
    let rspOff := (pushedEnvp.2 - table.length * 8) / 16 * 16
    writeWords (regionPhys + rspOff) table
    pure (regionVa + rspOff)

/-- `task_init_stack`, `task_init_userspace_stack` and `task_init_fork_stack`
write their frame at the top of the stack. -/
def writeStackFrame (stackPhys : Nat) (frame : List (BitVec 64)) : Paging Store Unit :=
  writeWords (stackPhys + (stackSize - frame.length * 8)) frame

def kernelFrame (entry : BitVec 64) : List (BitVec 64) := List.replicate 6 0#64 ++ [entry, 0#64]

def userFrame (image : KernelImage) (rip rsp : Nat) : List (BitVec 64) :=
  List.replicate 6 0#64 ++ [image.userEnterTrampoline, BitVec.ofNat 64 rip, userCodeSel,
    0x202#64, BitVec.ofNat 64 rsp, userDataSel]

/-- The six argument registers and the six callee-saved ones at the call. -/
structure ForkRegisters where
  regs : Fin 6 → BitVec 64
  calleeSaved : Fin 6 → BitVec 64

def forkFrame (image : KernelImage) (rip rsp : Nat) (registers : ForkRegisters) :
    List (BitVec 64) :=
  List.replicate 6 0#64 ++ [image.forkEnterTrampoline] ++ List.ofFn registers.regs ++
    List.ofFn registers.calleeSaved ++
    [BitVec.ofNat 64 rip, userCodeSel, 0x202#64, BitVec.ofNat 64 rsp, userDataSel]

end

variable {image : KernelImage} {Store : Type} (allocator : PageAllocator image Store)

/-- A kernel stack below which a guard page is unmapped; the result is the
address of the guard page. -/
def allocKernelStack : Paging Store Nat := do
  let frames ← allocPages allocator (1 + stackPages)
  let _ ← protectGuardPage allocator frames
  writeWord (frames + guardSize) guardCanary
  pure frames

/-- `map_user_init_stack`. -/
def mapUserInitStack (pt stackTop : Nat) : Paging Store Nat := do
  let phys ← allocPages allocator userStackPages
  zeroPages phys userStackPages
  Fallible.forRange userStackPages fun i =>
    mapUserPage allocator pt (stackTop - userStackSize + i * pageSize) (phys + i * pageSize)
      (protRead ||| protWrite ||| protUser)
  pure phys

/-- The image of an ELF file with its initial stack in a new address space: the
part that `spawn_elf` and `execve_current` share. -/
structure ExecImage where
  pageTable : Nat
  entry : Nat
  rsp : Nat
  heapStart : Nat

def loadExecImage (data argv0 : Bytes) (argv envp : List Bytes) (seed : BitVec 64) :
    Paging Store ExecImage := do
  let pt ← createEmptyProcessPageTable allocator
  let loaded ← load allocator data pt
  let phys ← mapUserInitStack allocator pt userElfStackTop
  let rsp ← setupAbiStack phys userStackSize userElfStackTop argv0 argv envp loaded seed
  pure { pageTable := pt, entry := loaded.entry, rsp := rsp, heapStart := loaded.heapStart }

structure TaskFrames where
  guardPhys : Nat
  pageTable : Nat
  heapBrk : Nat

def TaskFrames.stackTop (frames : TaskFrames) : Nat := frames.guardPhys + guardSize + stackSize

/-- `spawn_user` up to its slot search. -/
def buildUserTask (prog : Bytes) : Paging Store TaskFrames := do
  let guardPhys ← allocKernelStack allocator
  let codePhys ← allocPages allocator 1
  let ustackPhys ← allocPages allocator 1
  writeBytes codePhys (prog ++ List.replicate (pageSize - prog.length) 0#8)
  let pt ← createProcessPageTable allocator codePhys ustackPhys
  writeStackFrame (guardPhys + guardSize) (userFrame image userCodeVa userStackTop)
  pure { guardPhys := guardPhys, pageTable := pt, heapBrk := 0 }

/-- `spawn_elf` up to its slot search. -/
def buildElfTask (data argv0 : Bytes) (seed : BitVec 64) : Paging Store TaskFrames := do
  let guardPhys ← allocKernelStack allocator
  let exec ← loadExecImage allocator data argv0 [] [] seed
  writeStackFrame (guardPhys + guardSize) (userFrame image exec.entry exec.rsp)
  pure { guardPhys := guardPhys, pageTable := exec.pageTable, heapBrk := exec.heapStart }

/-- `spawn_fork` up to its slot search. -/
def buildForkTask (parentPt rip rsp : Nat) (registers : ForkRegisters) :
    Paging Store TaskFrames := do
  let guardPhys ← allocKernelStack allocator
  let childPt ← cloneUserPageTable allocator parentPt
  writeStackFrame (guardPhys + guardSize) (forkFrame image rip rsp registers)
  pure { guardPhys := guardPhys, pageTable := childPt, heapBrk := 0 }

/-- `spawn_fn` after its slot search. -/
def buildKernelTask (entry : BitVec 64) : Paging Store TaskFrames := do
  let guardPhys ← allocKernelStack allocator
  writeStackFrame (guardPhys + guardSize) (kernelFrame entry)
  pure { guardPhys := guardPhys, pageTable := 0, heapBrk := 0 }

/-- `count` fresh zeroed pages mapped from `base` on: the loops of `sys_brk` and
`sys_mmap`. -/
def mapFreshPages (pt base : Nat) (prot : BitVec 32) (count : Nat) : Paging Store Unit :=
  Fallible.forRange count fun i => do
    let phys ← allocZeroedPage allocator
    mapUserPage allocator pt ((base + i * pageSize) % wordLimit) phys prot

structure System (Store : Type) where
  kernel : Kernel
  space : PhysicalSpace Store

def currentPageTable (kernel : Kernel) : Nat := (kernel.currentTask.map Task.pageTablePhys).getD 0

def currentHeapBrk (kernel : Kernel) : Nat := (kernel.currentTask.map Task.heapBrk).getD 0

def setHeapBrk (kernel : Kernel) (value : Nat) : Kernel :=
  kernel.modifyCurrent fun task => { task with heapBrk := value }

namespace System

variable {Store : Type} {image : KernelImage} (allocator : PageAllocator image Store)

def enroll (system : System Store) (request : Kernel.SpawnRequest) :
    System Store × Option Slot :=
  match system.kernel.firstVacant with
  | some slot => ({ system with kernel := system.kernel.install slot request }, some slot)
  | none => (system, none)

def spawn (system : System Store) (build : Paging Store TaskFrames)
    (request : TaskFrames → Option Kernel.SpawnRequest) : System Store × Option Slot :=
  match build system.space with
  | (none, space) => ({ system with space := space }, none)
  | (some frames, space) =>
      match request frames with
      | some request => { system with space := space }.enroll request
      | none => ({ system with space := space }, none)

def spawnUser (system : System Store) (prog : Bytes) : System Store × Option Slot :=
  if pageSize < prog.length then (system, none)
  else
    system.spawn (buildUserTask allocator prog) fun frames =>
      some (system.kernel.spawnUserRequest frames.guardPhys frames.stackTop frames.pageTable
        frames.heapBrk)

def spawnElf (system : System Store) (data argv0 : Bytes) (seed : BitVec 64) :
    System Store × Option Slot :=
  system.spawn (buildElfTask allocator data argv0 seed) fun frames =>
    some (system.kernel.spawnUserRequest frames.guardPhys frames.stackTop frames.pageTable
      frames.heapBrk)

def spawnFork (system : System Store) (rip rsp : Nat) (registers : ForkRegisters)
    (fsBase : Nat) : System Store × Option Slot :=
  match system.kernel.currentTask with
  | none => (system, none)
  | some _ =>
      system.spawn (buildForkTask allocator (currentPageTable system.kernel) rip rsp registers)
        fun frames =>
          system.kernel.spawnForkRequest frames.guardPhys frames.stackTop frames.pageTable fsBase

def spawnFn (system : System Store) (entry : BitVec 64) : System Store × Option Slot :=
  match system.kernel.firstVacant with
  | none => (system, none)
  | some _ =>
      system.spawn (buildKernelTask allocator entry) fun frames =>
        some (system.kernel.spawnFnRequest frames.guardPhys frames.stackTop)

/-- The task is looked at last, when the new space is built. -/
def execveCurrent (system : System Store) (data argv0 : Bytes) (argv envp : List Bytes)
    (seed : BitVec 64) : System Store × Option (Nat × Nat × Nat) :=
  match loadExecImage allocator data argv0 argv envp seed system.space with
  | (none, space) => ({ system with space := space }, none)
  | (some exec, space) =>
      match system.kernel.currentTask with
      | none => ({ system with space := space }, none)
      | some _ =>
          ({ kernel := system.kernel.execveTask exec.pageTable exec.heapStart, space := space },
            some (exec.entry, exec.rsp, exec.pageTable))

/-- A `usize` cast to `isize`. -/
def asIsize (value : Nat) : Int := (BitVec.ofNat 64 value).toInt

def roundUp (value : Nat) : Nat := (value + 0xFFF) % wordLimit / pageSize * pageSize

def sysBrk (system : System Store) (addr : Nat) : System Store × Int :=
  let current := currentHeapBrk system.kernel
  let pt := currentPageTable system.kernel
  if addr = 0 ∨ pt = 0 then (system, asIsize current)
  else if addr ≤ current then
    ({ system with kernel := setHeapBrk system.kernel addr }, asIsize addr)
  else
    let pageLo := roundUp current
    let pageHi := roundUp addr
    match mapFreshPages allocator pt pageLo (protRead ||| protWrite ||| protUser)
        ((pageHi - pageLo) / pageSize) system.space with
    | (some _, space) =>
        ({ kernel := setHeapBrk system.kernel addr, space := space }, asIsize addr)
    | (none, space) => ({ system with space := space }, asIsize current)

def mmapProt (prot : Nat) : BitVec 32 :=
  protUser ||| (if prot.testBit 0 then protRead else 0#32) |||
    (if prot.testBit 1 then protWrite else 0#32) ||| (if prot.testBit 2 then protExec else 0#32)

def mapAnonymousBit : Nat := 5

def sysMmap (system : System Store) (addr len prot flags : Nat) : System Store × Int :=
  if len = 0 then (system, -22)
  else if !flags.testBit mapAnonymousBit then (system, -38)
  else
    let pt := currentPageTable system.kernel
    if pt = 0 then (system, -22)
    else
      let pages := (len + 0xFFF) % wordLimit / pageSize
      let base :=
        if addr ≠ 0 ∧ userBaseVa ≤ addr then addr else roundUp (currentHeapBrk system.kernel)
      match mapFreshPages allocator pt base (mmapProt prot) pages system.space with
      | (some _, space) =>
          let top := (base + pages * pageSize) % wordLimit
          ({ kernel :=
               if currentHeapBrk system.kernel < top then setHeapBrk system.kernel top
               else system.kernel
             space := space }, asIsize base)
      | (none, space) => ({ system with space := space }, -12)

def handleUserPageFault (system : System Store) (va : Nat) : System Store × Bool :=
  let pt := currentPageTable system.kernel
  if pt = 0 then (system, false)
  else if pageStart va < userBaseVa then (system, false)
  else
    match (do
        let phys ← allocZeroedPage allocator
        mapUserPage allocator pt (pageStart va) phys
          (protRead ||| protWrite ||| protExec ||| protUser) : Paging Store Unit) system.space with
    | (some _, space) => ({ system with space := space }, true)
    | (none, space) => ({ system with space := space }, false)

end System

end Ferrugem.AddressSpaceModel
