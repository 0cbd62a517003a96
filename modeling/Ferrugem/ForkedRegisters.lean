import Ferrugem.HeapRegions
import Ferrugem.InterruptStubs
import Ferrugem.SyscallContexts

/-!
# The registers of a forked child

The way of a caller's registers into its child: `isr128` or `syscall_entry_asm`
up to the call, the globals that `set_user_ctx`, `dispatch` and the stub of
`SYSCALL` fill, `sys_fork` and `sys_clone`, the image of `task_init_fork_stack`,
and its words as `context_switch` and `fork_enter_trampoline` take them. The
stub of `INT 0x80` does not store the callee-saved registers, so its child gets
what an earlier `SYSCALL`, of any task, left in the globals.
-/

namespace Ferrugem.ForkedRegisters

open WordStack
open Ferrugem.PagingModel Ferrugem.AddressSpaceModel Ferrugem.InterruptStubs
open Ferrugem.SyscallContexts (ContextWord Gate)

set_option autoImplicit false

/-- `SYSCALL_USER_RSP`, `SYSCALL_KERNEL_RSP`, the globals from `SYSCALL_USER_RBX`
to `SYSCALL_USER_R15`, and those of the context. -/
inductive Global where
  | userRsp
  | kernelRsp
  | saved (index : Fin 6)
  | context (word : ContextWord)
  deriving DecidableEq

abbrev Globals := Global → Word

structure EntryMachine where
  cpu : Cpu
  globals : Globals

/-- What the two stubs use; `load` is a move from the stack. -/
inductive EntryInstruction where
  | push (source : Register)
  | mov (target source : Register)
  | subRsp
  | load (target : Register) (offset : Nat)
  | store (target : Global) (source : Register)
  | storeRsp (target : Global)
  | loadRsp (source : Global)
  | pushGlobal (source : Global)

namespace EntryMachine

def withCpu (machine : EntryMachine) (cpu : Cpu) : EntryMachine := { machine with cpu := cpu }

def perform (machine : EntryMachine) : EntryInstruction → EntryMachine
  | .push source => machine.withCpu (machine.cpu.pushWord (machine.cpu.regs source))
  | .mov target source => machine.withCpu (machine.cpu.set target (machine.cpu.regs source))
  | .subRsp => machine.withCpu { machine.cpu with rsp := machine.cpu.rsp - 8 }
  | .load target offset =>
      machine.withCpu
        (machine.cpu.set target (machine.cpu.memory (machine.cpu.rsp + BitVec.ofNat 64 offset)))
  | .store target source =>
      { machine with
        globals := Function.update machine.globals target (machine.cpu.regs source) }
  | .storeRsp target =>
      { machine with globals := Function.update machine.globals target machine.cpu.rsp }
  | .loadRsp source => machine.withCpu { machine.cpu with rsp := machine.globals source }
  | .pushGlobal source => machine.withCpu (machine.cpu.pushWord (machine.globals source))

def performAll (machine : EntryMachine) (instructions : List EntryInstruction) : EntryMachine :=
  instructions.foldl perform machine

end EntryMachine

/-- `INT 0x80` through its trap gate, which leaves `IF` as it is. -/
def enterInt80 (top : Word) (caller : Cpu) : Cpu :=
  let start : Cpu := { caller with rsp := top }
  let framed := ((((start.pushWord caller.ss).pushWord caller.rsp).pushWord caller.rflags).pushWord
    caller.cs).pushWord caller.rip
  { framed with rflags := caller.rflags &&& ~~~0x34100 }

/-- `SYSCALL` stays on the stack of the caller; `IA32_FMASK` clears `IF`. -/
def enterSyscall (caller : Cpu) : Cpu :=
  { (caller.set .rcx caller.rip).set .r11 caller.rflags with
    rflags := caller.rflags &&& ~~~0x200 }

def isr128Pushes : List Register :=
  [.rbx, .rbp, .r12, .r13, .r14, .r15, .r10, .r11, .r8, .r9, .rcx]

/-- `isr128` up to `call syscall_entry_rust`. -/
def isr128 : List EntryInstruction :=
  isr128Pushes.map .push ++
    [.mov .r11 .rax, .subRsp, .load .rax 120, .push .rax, .load .rax 104, .push .rax, .push .r9,
      .mov .r9 .r8, .mov .r8 .r10, .mov .rcx .rdx, .mov .rdx .rsi, .mov .rsi .rdi, .mov .rdi .r11]

def syscallPushes : List Register := [.rcx, .r11, .rdi, .rsi, .rdx, .r8, .r9, .r10]

/-- `syscall_entry_asm` up to `call syscall_entry_rust`. -/
def syscallEntryAsm : List EntryInstruction :=
  [.storeRsp .userRsp, .loadRsp .kernelRsp, .store (.saved 0) .rbx, .store (.saved 1) .rbp,
      .store (.saved 2) .r12, .store (.saved 3) .r13, .store (.saved 4) .r14,
      .store (.saved 5) .r15] ++
    syscallPushes.map .push ++
    [.subRsp, .pushGlobal .userRsp, .push .rcx, .push .r9, .mov .r9 .r8, .mov .r8 .r10,
      .mov .rcx .rdx, .mov .rdx .rsi, .mov .rsi .rdi, .mov .rdi .rax]

/-- The arguments of `syscall_entry_rust`; the last three lie on the stack. -/
structure Arguments where
  nr : Word
  args : Fin 6 → Word
  userIp : Word
  userSp : Word

def syscallEntryRust (cpu : Cpu) : Arguments where
  nr := cpu.regs .rdi
  args
    | 0 => cpu.regs .rsi
    | 1 => cpu.regs .rdx
    | 2 => cpu.regs .rcx
    | 3 => cpu.regs .r8
    | 4 => cpu.regs .r9
    | 5 => cpu.memory cpu.rsp
  userIp := cpu.memory (cpu.rsp + 8)
  userSp := cpu.memory (cpu.rsp + 8 + 8)

/-- `set_user_ctx` and the first statement of `dispatch`. -/
def storeContext (arguments : Arguments) (globals : Globals) : Globals
  | .context .ip => arguments.userIp
  | .context .sp => arguments.userSp
  | .context (.reg index) => arguments.args index
  | other => globals other

/-- What the calls of other tasks have last stored in a global before the handler
reads it, after the call's own store if it has one. -/
abbrev Meanwhile := Global → Option Word

/-- Only the gate of `INT 0x80` lets other tasks in. -/
def readBy (gate : Gate) (meanwhile : Meanwhile) (globals : Globals) : Globals :=
  match gate with
  | .int80 => fun global => (meanwhile global).getD (globals global)
  | .syscall => globals

def forkRegisters (globals : Globals) : ForkRegisters where
  regs index := globals (.context (.reg index))
  calleeSaved index := globals (.saved index)

/-- The stack pointer of the new task, and the memory with its image. -/
structure ForkedTask where
  kernelSp : Word
  memory : Memory

section

variable (image : KernelImage) (memory : Memory)

/-- `task_init_fork_stack` for a stack that ends at `stackEnd`. -/
def taskInitForkStack (stackEnd ip sp : Word) (registers : ForkRegisters) : ForkedTask :=
  let kernelSp := (stackEnd &&& ~~~0xF) - 24 * 8
  { kernelSp := kernelSp
    memory := writeWords memory kernelSp (forkFrame image ip.toNat sp.toNat registers) }

variable (stackEnd : Option Word)

/-- `stackEnd` is the end of the new kernel stack, if `spawn_fork` finds the
frames, the page tables and the slot that it needs. -/
def spawnForkWithSp (globals : Globals) (sp : Word) : Except Int ForkedTask :=
  let ip := globals (.context .ip)
  if ip = 0 then .error (-38)
  else
    match stackEnd with
    | none => .error (-12)
    | some stackEnd => .ok (taskInitForkStack image memory stackEnd ip sp (forkRegisters globals))

def sysFork (globals : Globals) : Except Int ForkedTask :=
  spawnForkWithSp image memory stackEnd globals (globals (.context .sp))

def cloneThread : Word := 0x00010000

def sysClone (globals : Globals) (flags childStack : Word) : Except Int ForkedTask :=
  if flags &&& cloneThread ≠ 0 then .error (-38)
  else
    spawnForkWithSp image memory stackEnd globals
      (if childStack ≠ 0 then childStack else globals (.context .sp))

/-- `dispatch` for the two calls. -/
def dispatch (globals : Globals) (arguments : Arguments) : Option (Except Int ForkedTask) :=
  if arguments.nr.toNat = SyscallContexts.sysClone then
    some (sysClone image memory stackEnd globals (arguments.args 0) (arguments.args 1))
  else if arguments.nr.toNat = SyscallContexts.sysFork then
    some (sysFork image memory stackEnd globals)
  else none

end

def switchPushes : List Register := [.rbx, .rbp, .r12, .r13, .r14, .r15]

/-- `context_switch` until the registers of the old task are saved. -/
def saveTask (cpu : Cpu) : Option Cpu :=
  (executeAll (fun _ => none) (switchPushes.map .push) cpu).map fun pushed =>
    { pushed with memory := Function.update pushed.memory (pushed.regs .rdi) pushed.rsp }

def ret (cpu : Cpu) : Cpu := { cpu with rip := cpu.memory cpu.rsp, rsp := cpu.rsp + 8 }

def switchPops : List Register := [.r15, .r14, .r13, .r12, .rbp, .rbx]

/-- The rest of `context_switch`. -/
def loadTask (cpu : Cpu) : Option Cpu :=
  (executeAll (fun _ => none) (switchPops.map .pop) { cpu with rsp := cpu.regs .rsi }).map ret

/-- The registers that a system call preserves, in the order of the image. -/
def preserved : List Register :=
  [.rdi, .rsi, .rdx, .r10, .r8, .r9, .rbx, .rbp, .r12, .r13, .r14, .r15]

def forkEnterTrampoline (cpu : Cpu) : Option Cpu :=
  (executeAll (fun _ => none) (preserved.map .pop) (cpu.set .rax 0)).map iretq

def enterChild (image : KernelImage) (saved : Cpu) : Option Cpu :=
  (loadTask saved).bind fun resumed =>
    if resumed.rip = image.forkEnterTrampoline then forkEnterTrampoline resumed else none

structure ForkCall where
  gate : Gate
  /-- The registers of the caller; `rip` is the address after the instruction. -/
  caller : Cpu
  /-- Where the processor starts to push for `INT 0x80`. -/
  top : Word
  globals : Globals
  meanwhile : Meanwhile
  stackEnd : Option Word

def argumentRegister : Fin 6 → Register
  | 0 => .rdi
  | 1 => .rsi
  | 2 => .rdx
  | 3 => .r10
  | 4 => .r8
  | 5 => .r9

def calleeSavedRegister : Fin 6 → Register
  | 0 => .rbx
  | 1 => .rbp
  | 2 => .r12
  | 3 => .r13
  | 4 => .r14
  | 5 => .r15

namespace ForkCall

variable (call : ForkCall)

def entered : EntryMachine :=
  match call.gate with
  | .int80 =>
      EntryMachine.performAll ⟨enterInt80 call.top call.caller, call.globals⟩ isr128
  | .syscall => EntryMachine.performAll ⟨enterSyscall call.caller, call.globals⟩ syscallEntryAsm

def result (image : KernelImage) : Option (Except Int ForkedTask) :=
  let arguments := syscallEntryRust call.entered.cpu
  dispatch image call.entered.cpu.memory call.stackEnd
    (readBy call.gate call.meanwhile (storeContext arguments call.entered.globals)) arguments

/-- `sys_clone` with a stack for the child. -/
def givesStack : Prop :=
  (call.caller.regs .rax).toNat = SyscallContexts.sysClone ∧ call.caller.regs .rsi ≠ 0

instance decidableGivesStack : Decidable call.givesStack := inferInstanceAs (Decidable (_ ∧ _))

def childRsp : Word := if call.givesStack then call.caller.regs .rsi else call.caller.rsp

structure EntersLike (child : Cpu) : Prop where
  rax : child.regs .rax = 0
  rip : child.rip = call.caller.rip
  rsp : child.rsp = call.childRsp
  regs : ∀ reg ∈ preserved, child.regs reg = call.caller.regs reg

/-- Whichever task is switched out, the child enters user code with the
registers of the caller, if nobody has written to its stack. -/
def Preserves (image : KernelImage) (task : ForkedTask) : Prop :=
  ∀ switching saved, switching.regs .rsi = task.kernelSp → saveTask switching = some saved →
    KeepsStack (task.kernelSp + 24 * 8) task.kernelSp task.memory saved.memory →
    ∃ child, enterChild image saved = some child ∧ call.EntersLike child

/-- No other task has left something else in a global that the handler reads, and
the globals that `isr128` does not store hold what is in the registers. -/
structure ReadsOwn : Prop where
  ip : ∀ value ∈ call.meanwhile (.context .ip), value = call.caller.rip
  sp : ¬call.givesStack → ∀ value ∈ call.meanwhile (.context .sp), value = call.caller.rsp
  regs : ∀ index, ∀ value ∈ call.meanwhile (.context (.reg index)),
    value = call.caller.regs (argumentRegister index)
  saved : ∀ index, (call.meanwhile (.saved index)).getD (call.globals (.saved index)) =
    call.caller.regs (calleeSavedRegister index)

end ForkCall

/-- The registers, the words on the kernel stack and the globals of a stub. -/
structure Shows (top : Word) (machine : EntryMachine) (regs : Register → Word)
    (words : List Word) (globals : Globals) : Prop where
  regs : machine.cpu.regs = regs
  stacked : Stacked top machine.cpu.memory machine.cpu.rsp words
  globals : machine.globals = globals

namespace Shows

variable {top : Word} {machine : EntryMachine} {regs : Register → Word} {words : List Word}
  {globals : Globals}

theorem push (shows : Shows top machine regs words globals) (source : Register)
    (room : words.length + 1 < 2 ^ 61) :
    Shows top (machine.perform (.push source)) regs (regs source :: words) globals where
  regs := shows.regs
  stacked := by
    rw [← shows.regs]
    exact stacked_push shows.stacked _ room
  globals := shows.globals

theorem pushes (shows : Shows top machine regs words globals) (sources : List Register)
    (room : words.length + sources.length < 2 ^ 61) :
    Shows top (machine.performAll (sources.map .push)) regs
      ((sources.map regs).reverse ++ words) globals := by
  induction sources generalizing machine words with
  | nil => exact shows
  | cons source rest ih =>
      rw [List.length_cons] at room
      have reversed : ((source :: rest).map regs).reverse ++ words =
          (rest.map regs).reverse ++ regs source :: words := by
        rw [List.map_cons, List.reverse_cons, List.append_assoc, List.singleton_append]
      rw [reversed]
      exact ih (shows.push source (by omega)) (by rw [List.length_cons]; omega)

theorem mov (shows : Shows top machine regs words globals) (target source : Register) :
    Shows top (machine.perform (.mov target source)) (Function.update regs target (regs source))
      words globals where
  regs := by
    rw [← shows.regs]
    rfl
  stacked := shows.stacked
  globals := shows.globals

theorem sub_rsp (shows : Shows top machine regs words globals)
    (room : words.length + 1 < 2 ^ 61) :
    ∃ pad, Shows top (machine.perform .subRsp) regs (pad :: words) globals :=
  ⟨_, shows.regs, stacked_reserve shows.stacked room, shows.globals⟩

theorem load (shows : Shows top machine regs words globals) (target : Register) {index : Nat}
    (bound : index < words.length) :
    Shows top (machine.perform (.load target (8 * index)))
      (Function.update regs target words[index]) words globals where
  regs := by
    rw [← shows.regs, ← shows.stacked.held index bound]
    rfl
  stacked := shows.stacked
  globals := shows.globals

theorem store (shows : Shows top machine regs words globals) (target : Global)
    (source : Register) :
    Shows top (machine.perform (.store target source)) regs words
      (Function.update globals target (regs source)) where
  regs := shows.regs
  stacked := shows.stacked
  globals := by
    rw [← shows.regs, ← shows.globals]
    rfl

theorem push_global (shows : Shows top machine regs words globals) (source : Global)
    (room : words.length + 1 < 2 ^ 61) :
    Shows top (machine.perform (.pushGlobal source)) regs (globals source :: words) globals where
  regs := shows.regs
  stacked := by
    rw [← shows.globals]
    exact stacked_push shows.stacked _ room
  globals := shows.globals

end Shows

def callerArguments (caller : Cpu) : Arguments where
  nr := caller.regs .rax
  args index := caller.regs (argumentRegister index)
  userIp := caller.rip
  userSp := caller.rsp

theorem int80_shows (top : Word) (caller : Cpu) (globals : Globals) :
    Shows top ⟨enterInt80 top caller, globals⟩ caller.regs (frame caller) globals where
  regs := rfl
  stacked := stacked_push (stacked_push (stacked_push (stacked_push (stacked_push
    (stacked_nil caller.memory top) caller.ss (by simp)) caller.rsp (by simp)) caller.rflags
    (by simp)) caller.cs (by simp)) caller.rip (by simp)
  globals := rfl

theorem Shows.arguments {top : Word} {machine : EntryMachine} {regs : Register → Word}
    {words : List Word} {globals : Globals} {caller : Cpu}
    (shows : Shows top machine regs
      (caller.regs .r9 :: caller.rip :: caller.rsp :: words) globals)
    (nr : regs .rdi = caller.regs .rax)
    (moved : [regs .rsi, regs .rdx, regs .rcx, regs .r8, regs .r9] =
      [.rdi, .rsi, .rdx, .r10, .r8].map caller.regs) :
    syscallEntryRust machine.cpu = callerArguments caller := by
  have fifth := stacked_read shows.stacked
  have ip := stacked_read (stacked_pop shows.stacked)
  have sp := stacked_read (stacked_pop (stacked_pop shows.stacked))
  simp only [List.map_cons, List.map_nil, List.cons.injEq, and_true] at moved
  unfold syscallEntryRust callerArguments
  rw [shows.regs, nr, ip, sp]
  congr 1
  funext index
  match index with
  | 0 => exact moved.1
  | 1 => exact moved.2.1
  | 2 => exact moved.2.2.1
  | 3 => exact moved.2.2.2.1
  | 4 => exact moved.2.2.2.2
  | 5 => exact fifth

theorem isr128_arguments (top : Word) (caller : Cpu) (globals : Globals) :
    let machine := EntryMachine.performAll ⟨enterInt80 top caller, globals⟩ isr128
    syscallEntryRust machine.cpu = callerArguments caller ∧ machine.globals = globals := by
  intro machine
  have pushed : Shows top _ caller.regs
      ([.rcx, .r9, .r8, .r11, .r10, .r15, .r14, .r13, .r12, .rbp, .rbx].map caller.regs ++
        [caller.rip, caller.cs, caller.rflags, caller.rsp, caller.ss]) globals :=
    (int80_shows top caller globals).pushes isr128Pushes (by simp [frame, isr128Pushes])
  obtain ⟨pad, aligned⟩ := (pushed.mov .r11 .rax).sub_rsp (by simp)
  have sp := (@Shows.load _ _ _ _ _ aligned .rax 15 (by simp)).push .rax (by simp)
  have ip := (@Shows.load _ _ _ _ _ sp .rax 13 (by simp)).push .rax (by simp)
  have shows := ((((((ip.push .r9 (by simp)).mov .r9 .r8).mov .r8 .r10).mov .rcx .rdx).mov .rdx
    .rsi).mov .rsi .rdi).mov .rdi .r11
  exact ⟨shows.arguments rfl rfl, shows.globals⟩

/-- What the stub of `SYSCALL` leaves in the globals of the callee-saved registers. -/
theorem syscall_arguments (caller : Cpu) (globals : Globals) :
    let machine := EntryMachine.performAll ⟨enterSyscall caller, globals⟩ syscallEntryAsm
    syscallEntryRust machine.cpu = callerArguments caller ∧
      ∀ index, machine.globals (.saved index) = caller.regs (calleeSavedRegister index) := by
  intro machine
  have start : Shows (globals .kernelRsp)
      (EntryMachine.performAll ⟨enterSyscall caller, globals⟩
        [.storeRsp .userRsp, .loadRsp .kernelRsp])
      (enterSyscall caller).regs [] (Function.update globals .userRsp caller.rsp) :=
    ⟨rfl, stacked_nil caller.memory _, rfl⟩
  have stored := (((((start.store (.saved 0) .rbx).store (.saved 1) .rbp).store (.saved 2)
    .r12).store (.saved 3) .r13).store (.saved 4) .r14).store (.saved 5) .r15
  have pushed : Shows _ _ _
      ([.r10, .r9, .r8, .rdx, .rsi, .rdi, .r11, .rcx].map (enterSyscall caller).regs) _ :=
    stored.pushes syscallPushes (by simp [syscallPushes])
  obtain ⟨pad, aligned⟩ := pushed.sub_rsp (by simp)
  have shows := ((((((((aligned.push_global .userRsp (by simp)).push .rcx (by simp)).push .r9
    (by simp)).mov .r9 .r8).mov .r8 .r10).mov .rcx .rdx).mov .rdx .rsi).mov .rsi .rdi).mov .rdi
    .rax
  constructor
  · exact @Shows.arguments _ _ _ _ _ caller shows rfl rfl
  · intro index
    rw [show machine.globals = _ from shows.globals]
    match index with
    | 0 | 1 | 2 | 3 | 4 | 5 => rfl

theorem save_task_regs {switching saved : Cpu} (saves : saveTask switching = some saved) :
    saved.regs = switching.regs := by
  obtain ⟨pushed, executed, rfl⟩ := Option.map_eq_some_iff.mp saves
  obtain ⟨after, same, regs, _⟩ := @execute_pushes (fun _ => none) _ switching _ switchPushes
    (stacked_nil switching.memory switching.rsp) (by decide)
  obtain rfl : after = pushed := Option.some.inj (same.symm.trans executed)
  exact regs

def imageWord (registers : ForkRegisters) : Register → Word
  | .rdi => registers.regs 0
  | .rsi => registers.regs 1
  | .rdx => registers.regs 2
  | .r10 => registers.regs 3
  | .r8 => registers.regs 4
  | .r9 => registers.regs 5
  | .rbx => registers.calleeSaved 0
  | .rbp => registers.calleeSaved 1
  | .r12 => registers.calleeSaved 2
  | .r13 => registers.calleeSaved 3
  | .r14 => registers.calleeSaved 4
  | .r15 => registers.calleeSaved 5
  | _ => 0

/-- The image mirrors the pops of `context_switch` and of `fork_enter_trampoline`. -/
theorem fork_frame_mirrors (image : KernelImage) (ip sp : Word) (registers : ForkRegisters) :
    forkFrame image ip.toNat sp.toNat registers =
      switchPops.map (fun _ => 0) ++ (image.forkEnterTrampoline ::
        (preserved.map (imageWord registers) ++ [ip, userCodeSel, 0x202, sp, userDataSel])) := by
  unfold forkFrame
  rw [BitVec.ofNat_toNat, BitVec.ofNat_toNat, BitVec.setWidth_eq, BitVec.setWidth_eq]
  rfl

theorem fork_stack_memory (image : KernelImage) (memory : Memory) (stackEnd ip sp : Word)
    (registers : ForkRegisters) :
    (taskInitForkStack image memory stackEnd ip sp registers).memory =
      writeWords memory (taskInitForkStack image memory stackEnd ip sp registers).kernelSp
        (forkFrame image ip.toNat sp.toNat registers) := by
  simp only [taskInitForkStack]

theorem child_enters (image : KernelImage) {memory : Memory} {stackEnd ip sp : Word}
    {registers : ForkRegisters} {task : ForkedTask} {saved : Cpu}
    (made : taskInitForkStack image memory stackEnd ip sp registers = task)
    (next : saved.regs .rsi = task.kernelSp)
    (kept : KeepsStack (task.kernelSp + 24 * 8) task.kernelSp task.memory saved.memory) :
    ∃ child, enterChild image saved = some child ∧ child.regs .rax = 0 ∧ child.rip = ip ∧
      child.rsp = sp ∧ ∀ reg ∈ preserved, child.regs reg = imageWord registers reg := by
  have written : Stacked (task.kernelSp + 24 * 8) task.memory task.kernelSp
      (forkFrame image ip.toNat sp.toNat registers) := by
    subst made
    have length : (forkFrame image ip.toNat sp.toNat registers).length = 24 := by
      simp [forkFrame]
    rw [fork_stack_memory, show (24 * 8 : Word) = BitVec.ofNat 64 (8 * 24) by decide, ← length]
    apply stacked_write_words
    rw [length]
    decide
  have stacked := stacked_keeps written kept
  rw [fork_frame_mirrors, ← next] at stacked
  obtain ⟨loaded, loads, _, _, left⟩ := @execute_pops (fun _ => none) _
    { saved with rsp := saved.regs .rsi } _ switchPops (by decide) _ stacked
  obtain ⟨popped, pops, words, others, rest⟩ := @execute_pops (fun _ => none) _
    ((ret loaded).set .rax 0) _ preserved (by decide) (imageWord registers) (stacked_pop left)
  have entered : enterChild image saved = some (iretq popped) := by
    have returns : (ret loaded).rip = image.forkEnterTrampoline := stacked_read left
    unfold enterChild loadTask
    rw [loads, Option.map_some, Option.bind_some, if_pos returns, forkEnterTrampoline, pops]
    rfl
  refine ⟨iretq popped, entered, ?_, stacked_read rest, ?_, words⟩
  · exact others .rax (by decide)
  · exact stacked_read (stacked_pop (stacked_pop (stacked_pop rest)))

def switchingTo (task : ForkedTask) (cpu : Cpu) : Cpu :=
  { (cpu.set .rdi (task.kernelSp - 64)).set .rsi task.kernelSp with
    rsp := task.kernelSp
    memory := task.memory }

theorem execute_pushes_below {handler : Cpu → Option Cpu} {cpu after : Cpu} {address : Word}
    (sources : List Register)
    (executed : executeAll handler (sources.map .push) cpu = some after)
    (above : (address - cpu.rsp).toNat + 8 * sources.length < 2 ^ 64) :
    after.memory address = cpu.memory address := by
  induction sources generalizing cpu with
  | nil => rw [Option.some.inj executed]
  | cons source rest ih =>
      rw [List.length_cons] at above
      have apart : address ≠ cpu.rsp - 8 := by bv_omega
      have further : (address - (cpu.rsp - 8)).toNat + 8 * rest.length < 2 ^ 64 := by bv_omega
      rw [ih executed further]
      exact Function.update_of_ne apart _ _

theorem switching_to_saves (task : ForkedTask) (cpu : Cpu) :
    ∃ saved, saveTask (switchingTo task cpu) = some saved ∧
      KeepsStack (task.kernelSp + 24 * 8) task.kernelSp task.memory saved.memory := by
  obtain ⟨pushed, executed, regs, _⟩ := @execute_pushes (fun _ => none) _ (switchingTo task cpu) _
    switchPushes (stacked_nil task.memory task.kernelSp) (by decide)
  have saves : saveTask (switchingTo task cpu) = some { pushed with
      memory := Function.update pushed.memory (pushed.regs .rdi) pushed.rsp } := by
    rw [saveTask, executed]
    rfl
  refine ⟨_, saves, ?_⟩
  intro address inside
  have apart : address ≠ task.kernelSp - 64 := by bv_omega
  have above : (address - task.kernelSp).toNat + 8 * switchPushes.length < 2 ^ 64 := by
    have length : switchPushes.length = 6 := rfl
    bv_omega
  have slot : pushed.regs .rdi = task.kernelSp - 64 := by
    rw [regs]
    rfl
  show Function.update pushed.memory (pushed.regs .rdi) _ address = _
  rw [slot, Function.update_of_ne apart]
  exact execute_pushes_below switchPushes executed above

namespace ForkCall

variable {image : KernelImage} {call : ForkCall} {task : ForkedTask}

def seen (call : ForkCall) : Globals :=
  readBy call.gate call.meanwhile
    (storeContext (callerArguments call.caller) call.entered.globals)

theorem entered_arguments (call : ForkCall) :
    syscallEntryRust call.entered.cpu = callerArguments call.caller := by
  unfold entered
  split
  · exact (isr128_arguments call.top call.caller call.globals).1
  · exact (syscall_arguments call.caller call.globals).1

theorem image_of_succeeded (succeeded : call.result image = some (.ok task)) :
    ∃ stackEnd, taskInitForkStack image call.entered.cpu.memory stackEnd
      (call.seen (.context .ip))
      (if call.givesStack then call.caller.regs .rsi else call.seen (.context .sp))
      (forkRegisters call.seen) = task := by
  unfold result dispatch at succeeded
  rw [entered_arguments] at succeeded
  dsimp only at succeeded
  have spawned (sp : Word)
      (spawns : spawnForkWithSp image call.entered.cpu.memory call.stackEnd call.seen sp =
        .ok task) :
      ∃ stackEnd, taskInitForkStack image call.entered.cpu.memory stackEnd
        (call.seen (.context .ip)) sp (forkRegisters call.seen) = task := by
    unfold spawnForkWithSp at spawns
    dsimp only at spawns
    split_ifs at spawns
    split at spawns
    · cases spawns
    · exact ⟨_, Except.ok.inj spawns⟩
  split_ifs at succeeded with clone fork
  · have cloned := Option.some.inj succeeded
    unfold sysClone at cloned
    split_ifs at cloned with thread stack
    · rw [if_pos ⟨clone, stack⟩]
      exact spawned _ cloned
    · rw [if_neg fun given => stack given.2]
      exact spawned _ cloned
  · rw [if_neg fun given => clone given.1]
    exact spawned _ (Option.some.inj succeeded)

theorem seen_of_syscall (enters : call.gate = .syscall) :
    (∀ word, call.seen (.context word) =
        storeContext (callerArguments call.caller) call.globals (.context word)) ∧
      ∀ index, call.seen (.saved index) = call.caller.regs (calleeSavedRegister index) := by
  unfold seen entered
  rw [enters]
  exact ⟨fun word => by cases word <;> rfl, (syscall_arguments call.caller call.globals).2⟩

theorem seen_of_int80 (enters : call.gate = .int80) (global : Global) :
    call.seen global = (call.meanwhile global).getD
      (storeContext (callerArguments call.caller) call.globals global) := by
  unfold seen entered
  rw [enters]
  dsimp only [readBy]
  rw [(isr128_arguments call.top call.caller call.globals).2]

theorem preserved_cases {property : Register → Prop}
    (arguments : ∀ index, property (argumentRegister index))
    (saved : ∀ index, property (calleeSavedRegister index)) : ∀ reg ∈ preserved, property reg := by
  intro reg member
  simp only [preserved, List.mem_cons, List.not_mem_nil, or_false] at member
  rcases member with rfl | rfl | rfl | rfl | rfl | rfl | rfl | rfl | rfl | rfl | rfl | rfl
  · exact arguments 0
  · exact arguments 1
  · exact arguments 2
  · exact arguments 3
  · exact arguments 4
  · exact arguments 5
  · exact saved 0
  · exact saved 1
  · exact saved 2
  · exact saved 3
  · exact saved 4
  · exact saved 5

theorem image_word_argument (registers : ForkRegisters) (index : Fin 6) :
    imageWord registers (argumentRegister index) = registers.regs index := by
  match index with
  | 0 | 1 | 2 | 3 | 4 | 5 => rfl

theorem image_word_saved (registers : ForkRegisters) (index : Fin 6) :
    imageWord registers (calleeSavedRegister index) = registers.calleeSaved index := by
  match index with
  | 0 | 1 | 2 | 3 | 4 | 5 => rfl

theorem argument_preserved (index : Fin 6) : argumentRegister index ∈ preserved := by
  match index with
  | 0 | 1 | 2 | 3 | 4 | 5 => decide

theorem saved_preserved (index : Fin 6) : calleeSavedRegister index ∈ preserved := by
  match index with
  | 0 | 1 | 2 | 3 | 4 | 5 => decide

structure SeenOwn (call : ForkCall) : Prop where
  ip : call.seen (.context .ip) = call.caller.rip
  sp : ¬call.givesStack → call.seen (.context .sp) = call.caller.rsp
  regs : ∀ index, call.seen (.context (.reg index)) = call.caller.regs (argumentRegister index)
  saved : ∀ index, call.seen (.saved index) = call.caller.regs (calleeSavedRegister index)

theorem child_rsp_iff (value : Word) :
    (if call.givesStack then call.caller.regs .rsi else value) = call.childRsp ↔
      (¬call.givesStack → value = call.caller.rsp) := by
  unfold childRsp
  split_ifs with given
  · exact ⟨fun _ absent => absurd given absent, fun _ => rfl⟩
  · exact ⟨fun same _ => same, fun same => same given⟩

theorem preserves_iff_seen (succeeded : call.result image = some (.ok task)) :
    call.Preserves image task ↔ call.SeenOwn := by
  obtain ⟨stackEnd, made⟩ := image_of_succeeded succeeded
  have enters (saved : Cpu) := @child_enters image _ _ _ _ _ _ saved made
  constructor
  · intro preserves
    obtain ⟨saved, saves, kept⟩ := switching_to_saves task call.caller
    have next : (switchingTo task call.caller).regs .rsi = task.kernelSp := rfl
    obtain ⟨child, entered, like⟩ := preserves _ saved next saves kept
    rw [← save_task_regs saves] at next
    obtain ⟨same, again, _, rip, rsp, regs⟩ := enters saved next kept
    obtain rfl : same = child := Option.some.inj (again.symm.trans entered)
    refine ⟨rip.symm.trans like.rip, (child_rsp_iff _).mp (rsp.symm.trans like.rsp), ?_, ?_⟩
    · intro index
      have word := regs _ (argument_preserved index)
      rw [image_word_argument] at word
      exact word.symm.trans (like.regs _ (argument_preserved index))
    · intro index
      have word := regs _ (saved_preserved index)
      rw [image_word_saved] at word
      exact word.symm.trans (like.regs _ (saved_preserved index))
  · intro own switching saved next saves kept
    rw [← save_task_regs saves] at next
    obtain ⟨child, entered, rax, rip, rsp, regs⟩ := enters saved next kept
    refine ⟨child, entered, rax, rip.trans own.ip, rsp.trans ?_, ?_⟩
    · exact (child_rsp_iff _).mpr own.sp
    · apply preserved_cases
      · intro index
        rw [regs _ (argument_preserved index), image_word_argument]
        exact own.regs index
      · intro index
        rw [regs _ (saved_preserved index), image_word_saved]
        exact own.saved index

theorem get_or_iff {Value : Type} (other : Option Value) (own : Value) :
    other.getD own = own ↔ ∀ value ∈ other, value = own := by
  cases other with
  | none => simp
  | some value => simp

theorem seen_own_iff (call : ForkCall) :
    call.SeenOwn ↔ call.gate = .syscall ∨ call.ReadsOwn := by
  cases gate : call.gate with
  | syscall =>
      obtain ⟨context, saved⟩ := seen_of_syscall gate
      exact ⟨fun _ => .inl rfl,
        fun _ => ⟨context .ip, fun _ => context .sp, fun index => context (.reg index), saved⟩⟩
  | int80 =>
      have seen (word : ContextWord) := seen_of_int80 gate (.context word)
      have stale (index : Fin 6) := seen_of_int80 gate (.saved index)
      constructor
      · intro own
        refine .inr ⟨?_, ?_, ?_, ?_⟩
        · exact (get_or_iff _ _).mp ((seen .ip).symm.trans own.ip)
        · exact fun bare => (get_or_iff _ _).mp ((seen .sp).symm.trans (own.sp bare))
        · exact fun index => (get_or_iff _ _).mp ((seen (.reg index)).symm.trans (own.regs index))
        · exact fun index => (stale index).symm.trans (own.saved index)
      · rintro (absent | own)
        · cases absent
        · refine ⟨?_, ?_, ?_, ?_⟩
          · exact (seen .ip).trans ((get_or_iff _ _).mpr own.ip)
          · exact fun bare => (seen .sp).trans ((get_or_iff _ _).mpr (own.sp bare))
          · exact fun index => (seen (.reg index)).trans ((get_or_iff _ _).mpr (own.regs index))
          · exact fun index => (stale index).trans (own.saved index)

end ForkCall

/-- A child gets the registers of its caller when the call came by `SYSCALL`, and
for `INT 0x80` when the globals that the handler reads hold them. -/
theorem fork_preserves_registers_iff (image : KernelImage) (call : ForkCall) (task : ForkedTask)
    (succeeded : call.result image = some (.ok task)) :
    call.Preserves image task ↔ call.gate = .syscall ∨ call.ReadsOwn :=
  (ForkCall.preserves_iff_seen succeeded).trans (ForkCall.seen_own_iff call)

/-- User code with 7 in every register but `rax`. -/
def forkCaller (nr : Word) : Cpu where
  regs := fun reg => if reg = .rax then nr else 7
  rsp := 0x7FFFFFF000
  rip := 0x400000
  rflags := 0x202
  cs := 0x23
  ss := 0x1B
  cr2 := 0
  memory := fun _ => 0

def firstFork (gate : Gate) (nr : Word) : ForkCall where
  gate := gate
  caller := forkCaller nr
  top := 0x200000
  globals := fun _ => 0
  meanwhile := fun _ => none
  stackEnd := some 0x300000

/-- A `clone` with the child's stack at 7. -/
theorem syscall_clone_preserves_registers :
    ∃ task, (firstFork .syscall 56).result HeapRegions.smallImage = some (.ok task) ∧
      (firstFork .syscall 56).Preserves HeapRegions.smallImage task :=
  ⟨_, rfl, (fork_preserves_registers_iff HeapRegions.smallImage (firstFork .syscall 56) _ rfl).mpr
    (.inl rfl)⟩

/-- The child of a `fork` through `INT 0x80` starts with a zero in `rbx`. -/
theorem int80_fork_loses_registers :
    ¬∀ (image : KernelImage) (call : ForkCall) (task : ForkedTask),
      call.result image = some (.ok task) → call.Preserves image task := by
  intro all
  have preserves := all HeapRegions.smallImage (firstFork .int80 57) _ rfl
  have own := (ForkCall.preserves_iff_seen rfl).mp preserves
  have rbx : (firstFork .int80 57).seen (.saved 0) = 7 := own.saved 0
  revert rbx
  decide +kernel

end Ferrugem.ForkedRegisters
