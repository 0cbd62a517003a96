import Ferrugem.Library.RegisterPrograms

/-!
# `context_switch` on the three processors

The naked functions of `arch/{x86_64,riscv64,aarch64}/context.rs` and the stacks
that their `task_init_*` functions build. A suspended task is the image of its
`Context` on its own stack: on x86_64 the return address is the word that `call`
pushed, on the other two it is the link register, stored first. The three functions
save general-purpose registers only: the floating-point registers that the calling
conventions of RISC-V and aarch64 also give to the callee are not in an image.
-/

namespace Ferrugem.ContextSwitches

open WordStack RegisterPrograms

set_option autoImplicit false

/-- Where a task goes on: what a function may rely on when a call returns. -/
structure Context (Register : Type) where
  regs : Register → Word
  sp : Word
  pc : Word

inductive Start where
  | kernel (entry : Word)
  | user (rip rsp : Word)
  | fork (rip rsp : Word) (arguments calleeSaved : Fin 6 → Word)

/-- The addresses of the code in which user tasks begin. -/
structure Trampolines where
  userEnter : Word
  forkEnter : Word

/-- `kernel_sp` and the words written from there upwards. -/
structure InitialStack where
  kernelSp : Word
  written : List Word

/-- A `context_switch(cur_sp, next_sp)` and the stacks it can be resumed from.
`frame` lists what a suspended task has on its stack, `none` being the address
to return to. -/
structure SwitchCode (Register : Type) where
  sp : Register
  curSp : Register
  nextSp : Register
  link : Option Register
  calleeSaved : List Register
  frame : List (Option Register)
  saveFrame : List (Instruction Register)
  exchange : List (Instruction Register)
  restoreFrame : List (Instruction Register)
  taskInit : Trampolines → (stackEnd : Word) → Start → Option InitialStack
  startContext : Trampolines → (stackEnd : Word) → Start → Context Register

/-- `stack.as_mut_ptr().add(stack.len()) & !0xF` -/
def alignTop (stackEnd : Word) : Word := stackEnd &&& ~~~0xF

namespace SwitchCode

variable {Register : Type} [DecidableEq Register] (code : SwitchCode Register)

def image (context : Context Register) : List Word :=
  code.frame.map fun slot => slot.elim context.pc context.regs

def call (returnAddress : Word) (cpu : Cpu Register) : Cpu Register :=
  match code.link with
  | none => cpu.pushWord code.sp returnAddress
  | some link => cpu.set link returnAddress

def ret (cpu : Cpu Register) : Cpu Register :=
  match code.link with
  | none =>
      { cpu.set code.sp (cpu.regs code.sp + 8) with pc := cpu.memory (cpu.regs code.sp) }
  | some link => { cpu with pc := cpu.regs link }

/-- The call with its arguments in their registers, until the outgoing task is saved. -/
def suspended (curSp nextSp returnAddress : Word) (cpu : Cpu Register) : Cpu Register :=
  run code.saveFrame
    (code.call returnAddress ((cpu.set code.curSp curSp).set code.nextSp nextSp))

def contextSwitch (curSp nextSp returnAddress : Word) (cpu : Cpu Register) : Cpu Register :=
  code.ret (run code.restoreFrame
    (run code.exchange (code.suspended curSp nextSp returnAddress cpu)))

/-- A task goes on in a context if a caller of `context_switch` cannot tell the difference
by its general-purpose registers. -/
structure GoesOn (context : Context Register) (cpu : Cpu Register) : Prop where
  pc : cpu.pc = context.pc
  sp : cpu.regs code.sp = context.sp
  regs : ∀ reg ∈ code.calleeSaved, cpu.regs reg = context.regs reg

/-- What the code of one processor has to do, part by part. -/
structure Lawful : Prop where
  distinct : code.curSp ≠ code.nextSp ∧ code.sp ≠ code.curSp ∧ code.sp ≠ code.nextSp
  savedArguments : code.curSp ∉ code.calleeSaved ∧ code.nextSp ∉ code.calleeSaved
  frameSaved : ∀ slot ∈ code.frame, ∀ reg, slot = some reg → reg ∈ code.calleeSaved
  saves : ∀ (returnAddress : Word) (cpu : Cpu Register),
    let saved := run code.saveFrame (code.call returnAddress cpu)
    saved.regs code.sp = cpu.regs code.sp - words code.frame.length ∧
      saved.regs code.curSp = cpu.regs code.curSp ∧
      saved.regs code.nextSp = cpu.regs code.nextSp ∧
      Stacked (cpu.regs code.sp) saved.memory (saved.regs code.sp)
        (code.image ⟨cpu.regs, cpu.regs code.sp, returnAddress⟩) ∧
      ∀ address, (∀ i < code.frame.length, address ≠ saved.regs code.sp + words i) →
        saved.memory address = cpu.memory address
  exchanges : ∀ cpu : Cpu Register,
    (run code.exchange cpu).memory =
        Function.update cpu.memory (cpu.regs code.curSp) (cpu.regs code.sp) ∧
      (run code.exchange cpu).regs code.sp = cpu.regs code.nextSp
  restores : ∀ (context : Context Register) (cpu : Cpu Register),
    Stacked context.sp cpu.memory (cpu.regs code.sp) (code.image context) →
      code.GoesOn context (code.ret (run code.restoreFrame cpu)) ∧
        (code.ret (run code.restoreFrame cpu)).memory = cpu.memory
  starts : ∀ (trampolines : Trampolines) (stackEnd : Word) (start : Start)
    (stack : InitialStack),
    code.taskInit trampolines stackEnd start = some stack →
      (∃ above, stack.written =
        code.image (code.startContext trampolines stackEnd start) ++ above) ∧
        (code.startContext trampolines stackEnd start).sp =
          stack.kernelSp + words code.frame.length ∧
        stack.kernelSp = alignTop stackEnd - words stack.written.length ∧
        stack.written.length ≤ 24

variable {code}

theorem Lawful.suspends (lawful : code.Lawful) (curSp nextSp returnAddress : Word)
    (cpu : Cpu Register) :
    let saved := code.suspended curSp nextSp returnAddress cpu
    saved.regs code.sp = cpu.regs code.sp - words code.frame.length ∧
      saved.regs code.curSp = curSp ∧ saved.regs code.nextSp = nextSp ∧
      Stacked (cpu.regs code.sp) saved.memory (saved.regs code.sp)
        (code.image ⟨cpu.regs, cpu.regs code.sp, returnAddress⟩) ∧
      ∀ address, (∀ i < code.frame.length, address ≠ saved.regs code.sp + words i) →
        saved.memory address = cpu.memory address := by
  have distinct := lawful.distinct
  have saves := lawful.saves returnAddress ((cpu.set code.curSp curSp).set code.nextSp nextSp)
  have other : ∀ reg, reg ≠ code.curSp → reg ≠ code.nextSp →
      ((cpu.set code.curSp curSp).set code.nextSp nextSp).regs reg = cpu.regs reg := by
    intro reg notCur notNext
    simp only [Cpu.set, Function.update_of_ne notNext, Function.update_of_ne notCur]
  have sp := other code.sp distinct.2.1 distinct.2.2
  have cur : ((cpu.set code.curSp curSp).set code.nextSp nextSp).regs code.curSp = curSp := by
    simp only [Cpu.set, Function.update_of_ne distinct.1, Function.update_self]
  have next : ((cpu.set code.curSp curSp).set code.nextSp nextSp).regs code.nextSp = nextSp :=
    Function.update_self _ _ _
  have same : code.image ⟨((cpu.set code.curSp curSp).set code.nextSp nextSp).regs,
        cpu.regs code.sp, returnAddress⟩ =
      code.image ⟨cpu.regs, cpu.regs code.sp, returnAddress⟩ := by
    apply List.map_congr_left
    intro slot member
    cases named : slot with
    | none => rfl
    | some reg =>
        have preserved := lawful.frameSaved slot member reg named
        exact other reg (ne_of_mem_of_not_mem preserved lawful.savedArguments.1)
          (ne_of_mem_of_not_mem preserved lawful.savedArguments.2)
  rw [sp, cur, next, same] at saves
  exact saves

theorem Lawful.switches (lawful : code.Lawful) {curSp nextSp returnAddress : Word}
    {cpu : Cpu Register} {memory : Memory} {context : Context Register}
    (stored : memory = Function.update
      (code.suspended curSp nextSp returnAddress cpu).memory curSp
        (cpu.regs code.sp - words code.frame.length))
    (image : Stacked context.sp memory nextSp (code.image context)) :
    code.GoesOn context (code.contextSwitch curSp nextSp returnAddress cpu) ∧
      (code.contextSwitch curSp nextSp returnAddress cpu).memory = memory := by
  obtain ⟨pointer, cur, next, -, -⟩ := lawful.suspends curSp nextSp returnAddress cpu
  have exchanged := lawful.exchanges (code.suspended curSp nextSp returnAddress cpu)
  rw [pointer, cur, next, ← stored] at exchanged
  have restored := lawful.restores context
    (run code.exchange (code.suspended curSp nextSp returnAddress cpu))
    (by rw [exchanged.1, exchanged.2]; exact image)
  rw [exchanged.1] at restored
  exact restored

variable (code)

section Linked

variable {code} (link : Register) (saved : List Register)

theorem linked_saves (linked : code.link = some link)
    (frame : code.frame = none :: saved.map some)
    (saveFrame : code.saveFrame =
      .add code.sp code.sp (-words (link :: saved).length) ::
        storeBlock code.sp 0 (link :: saved))
    (apart : code.sp ∉ link :: saved) (fresh : link ∉ saved)
    (arguments : code.curSp ≠ link ∧ code.nextSp ≠ link)
    (pointers : code.sp ≠ code.curSp ∧ code.sp ≠ code.nextSp)
    (short : (link :: saved).length < 2 ^ 61) (returnAddress : Word) (cpu : Cpu Register) :
    (run code.saveFrame (code.call returnAddress cpu)).regs code.sp =
        cpu.regs code.sp - words code.frame.length ∧
      (run code.saveFrame (code.call returnAddress cpu)).regs code.curSp = cpu.regs code.curSp ∧
      (run code.saveFrame (code.call returnAddress cpu)).regs code.nextSp =
        cpu.regs code.nextSp ∧
      Stacked (cpu.regs code.sp) (run code.saveFrame (code.call returnAddress cpu)).memory
        ((run code.saveFrame (code.call returnAddress cpu)).regs code.sp)
        (code.image ⟨cpu.regs, cpu.regs code.sp, returnAddress⟩) ∧
      ∀ address,
        (∀ i < code.frame.length,
          address ≠ (run code.saveFrame (code.call returnAddress cpu)).regs code.sp + words i) →
        (run code.saveFrame (code.call returnAddress cpu)).memory address =
          cpu.memory address := by
  have called : code.call returnAddress cpu = cpu.set link returnAddress := by
    rw [call, linked]
  rw [called, saveFrame, frame]
  have saves := saves_frame (cpu.set link returnAddress) apart short
  have other : ∀ reg, reg ≠ link → (cpu.set link returnAddress).regs reg = cpu.regs reg :=
    fun reg differs => Function.update_of_ne differs _ _
  have sp : (cpu.set link returnAddress).regs code.sp = cpu.regs code.sp :=
    other _ fun same => apart (by simp [same])
  have values : (link :: saved).map (cpu.set link returnAddress).regs =
      code.image ⟨cpu.regs, cpu.regs code.sp, returnAddress⟩ := by
    rw [List.map_cons, image, frame, List.map_cons, List.map_map]
    congr 1
    · exact Function.update_self _ _ _
    · exact List.map_congr_left fun reg member => other reg fun same => fresh (same ▸ member)
  have size : (none :: saved.map some).length =
      ((link :: saved).map (cpu.set link returnAddress).regs).length := by simp
  refine ⟨?_, ?_, ?_, ?_, ?_⟩
  · rw [saves.pointer, sp, size]
  · rw [saves.regs _ pointers.1.symm, other _ arguments.1]
  · rw [saves.regs _ pointers.2.symm, other _ arguments.2]
  · rw [← values, ← sp]
    exact saves.stacked
  · rw [size]
    exact saves.outside

theorem linked_restores (linked : code.link = some link)
    (frame : code.frame = none :: saved.map some)
    (restoreFrame : code.restoreFrame =
      loadBlock code.sp 0 (link :: saved) ++
        [.add code.sp code.sp (words (link :: saved).length)])
    (apart : code.sp ∉ link :: saved) (distinct : (link :: saved).Nodup)
    (covered : ∀ reg ∈ code.calleeSaved, reg ∈ saved)
    (context : Context Register) (cpu : Cpu Register)
    (stacked : Stacked context.sp cpu.memory (cpu.regs code.sp) (code.image context)) :
    code.GoesOn context (code.ret (run code.restoreFrame cpu)) ∧
      (code.ret (run code.restoreFrame cpu)).memory = cpu.memory := by
  have fresh := (List.nodup_cons.mp distinct).1
  have own : Function.update context.regs link context.pc link = context.pc :=
    Function.update_self _ _ _
  have other : ∀ reg ∈ saved,
      Function.update context.regs link context.pc reg = context.regs reg := fun reg member =>
    Function.update_of_ne (ne_of_mem_of_not_mem member fresh) _ _
  have values : code.image context =
      (link :: saved).map (Function.update context.regs link context.pc) ++ [] := by
    rw [List.append_nil, List.map_cons, image, frame, List.map_cons, List.map_map, own]
    congr 1
    exact (List.map_congr_left other).symm
  have depth := stacked.depth
  rw [values] at stacked
  have restored := restores_frame distinct apart stacked
  have size : (code.image context).length = (link :: saved).length := by
    rw [values]
    simp
  rw [← restoreFrame] at restored
  generalize run code.restoreFrame cpu = back at restored ⊢
  have returned : code.ret back = { back with pc := back.regs link } := by rw [ret, linked]
  rw [returned]
  refine ⟨⟨?_, ?_, ?_⟩, restored.memory⟩
  · show back.regs link = context.pc
    rw [restored.loaded link (by simp), own]
  · show back.regs code.sp = context.sp
    rw [restored.pointer]
    rw [size] at depth
    unfold words
    bv_omega
  · intro reg member
    have inside := covered reg member
    show back.regs reg = context.regs reg
    rw [restored.loaded reg (List.mem_cons_of_mem link inside), other reg inside]

end Linked

end SwitchCode

inductive X86Register where
  | rax | rbx | rcx | rdx | rsi | rdi | rbp | rsp
  | r8 | r9 | r10 | r11 | r12 | r13 | r14 | r15
  deriving DecidableEq

def userCodeSel : Word := 0x23

def userDataSel : Word := 0x1B

namespace X86

def taskInitStack (stackEnd entry : Word) : InitialStack where
  kernelSp := alignTop stackEnd - 64
  written := List.replicate 6 0 ++ [entry, 0]

def taskInitUserspaceStack (userEnterTrampoline stackEnd rip rsp : Word) : InitialStack where
  kernelSp := alignTop stackEnd - 96
  written := List.replicate 6 0 ++
    [userEnterTrampoline, rip, userCodeSel, 0x202, rsp, userDataSel]

def taskInitForkStack (forkEnterTrampoline stackEnd rip rsp : Word)
    (arguments calleeSaved : Fin 6 → Word) : InitialStack where
  kernelSp := alignTop stackEnd - 192
  written := List.replicate 6 0 ++ [forkEnterTrampoline] ++ List.ofFn arguments ++
    List.ofFn calleeSaved ++ [rip, userCodeSel, 0x202, rsp, userDataSel]

def switchCode : SwitchCode X86Register where
  sp := .rsp
  curSp := .rdi
  nextSp := .rsi
  link := none
  calleeSaved := [.rbx, .rbp, .r12, .r13, .r14, .r15]
  frame := [some .r15, some .r14, some .r13, some .r12, some .rbp, some .rbx, none]
  saveFrame := [.rbx, .rbp, .r12, .r13, .r14, .r15].flatMap (push .rsp)
  exchange := [.store .rsp .rdi 0, move .rsp .rsi]
  restoreFrame := [.r15, .r14, .r13, .r12, .rbp, .rbx].flatMap (pop .rsp)
  taskInit := fun trampolines stackEnd start => match start with
    | .kernel entry => some (taskInitStack stackEnd entry)
    | .user rip rsp => some (taskInitUserspaceStack trampolines.userEnter stackEnd rip rsp)
    | .fork rip rsp arguments calleeSaved =>
        some (taskInitForkStack trampolines.forkEnter stackEnd rip rsp arguments calleeSaved)
  startContext := fun trampolines stackEnd start => match start with
    | .kernel entry => ⟨fun _ => 0, alignTop stackEnd - 8, entry⟩
    | .user _ _ => ⟨fun _ => 0, alignTop stackEnd - 40, trampolines.userEnter⟩
    | .fork _ _ _ _ => ⟨fun _ => 0, alignTop stackEnd - 136, trampolines.forkEnter⟩

theorem lawful : switchCode.Lawful where
  distinct := by decide
  savedArguments := by decide
  frameSaved := by decide
  saves := by
    intro returnAddress cpu
    have called := (Saves.nothing X86Register.rsp cpu).push_word returnAddress (by decide)
    have saves := called.pushes
      (show X86Register.rsp ∉ [.rbx, .rbp, .r12, .r13, .r14, .r15] by decide)
      (show 1 + 6 < 2 ^ 61 by decide)
    exact ⟨saves.pointer, saves.regs .rdi (by decide), saves.regs .rsi (by decide),
      saves.stacked, saves.outside⟩
  exchanges := by
    intro cpu
    rw [switchCode, run_cons, run_cons, run_nil, execute_store_here, execute_move]
    exact ⟨rfl, rfl⟩
  restores := by
    intro context cpu stacked
    have depth := stacked.depth
    have address := stacked.held 6 (Nat.le_refl 7)
    have values : switchCode.image context =
        [X86Register.r15, .r14, .r13, .r12, .rbp, .rbx].map context.regs ++ [context.pc] := rfl
    rw [values] at stacked
    have restored := restores_pops X86Register.rsp (by decide) (by decide) stacked
    generalize back : run _ cpu = popped at restored
    have returned : switchCode.ret (run switchCode.restoreFrame cpu) =
        { popped.set .rsp (popped.regs .rsp + 8) with
          pc := popped.memory (popped.regs .rsp) } := by
      rw [← back]
      rfl
    have pointer : popped.regs .rsp = cpu.regs .rsp + 48#64 := restored.pointer
    rw [returned]
    refine ⟨⟨?_, ?_, ?_⟩, restored.memory⟩
    · show popped.memory (popped.regs .rsp) = context.pc
      rw [restored.memory, pointer]
      exact address
    · show Function.update popped.regs X86Register.rsp (popped.regs .rsp + 8) .rsp = context.sp
      rw [Function.update_self, pointer]
      have top : context.sp - cpu.regs .rsp = 56#64 := depth
      bv_omega
    · intro reg member
      have notPointer : reg ≠ .rsp := by
        intro same
        subst same
        revert member
        decide
      have inside : reg ∈ [X86Register.r15, .r14, .r13, .r12, .rbp, .rbx] := by
        revert member
        cases reg <;> decide
      show Function.update popped.regs X86Register.rsp (popped.regs .rsp + 8) reg = _
      rw [Function.update_of_ne notPointer, restored.loaded reg inside]
  starts := by
    intro trampolines stackEnd start stack initial
    cases start with
    | kernel entry =>
        cases initial
        refine ⟨⟨[0], rfl⟩, ?_, rfl, Nat.le_of_ble_eq_true rfl⟩
        show alignTop stackEnd - 8 = alignTop stackEnd - 64 + words 7
        unfold words
        bv_omega
    | user rip rsp =>
        cases initial
        refine ⟨⟨[rip, userCodeSel, 0x202, rsp, userDataSel], rfl⟩, ?_, rfl, ?_⟩
        · show alignTop stackEnd - 40 = alignTop stackEnd - 96 + words 7
          unfold words
          bv_omega
        · exact Nat.le_of_ble_eq_true rfl
    | fork rip rsp arguments calleeSaved =>
        cases initial
        refine ⟨⟨List.ofFn arguments ++ List.ofFn calleeSaved ++
          [rip, userCodeSel, 0x202, rsp, userDataSel], rfl⟩, ?_, rfl, ?_⟩
        · show alignTop stackEnd - 136 = alignTop stackEnd - 192 + words 7
          unfold words
          bv_omega
        · exact Nat.le_of_ble_eq_true rfl

end X86

/-- The general registers and the control registers that the assembly names. -/
inductive RiscvRegister where
  | ra | sp | gp | tp | t0 | t1 | t2 | s0 | s1 | a0 | a1 | a2 | a3 | a4 | a5 | a6 | a7
  | s2 | s3 | s4 | s5 | s6 | s7 | s8 | s9 | s10 | s11 | t3 | t4 | t5 | t6
  | sscratch | sepc | sstatus
  deriving DecidableEq

namespace Riscv

def saved : List RiscvRegister :=
  [.s0, .s1, .s2, .s3, .s4, .s5, .s6, .s7, .s8, .s9, .s10, .s11]

def userSstatus : Word := 0x40020

def taskInitStack (stackEnd entry : Word) : InitialStack where
  kernelSp := alignTop stackEnd - 104
  written := entry :: List.replicate 12 0

def taskInitUserspaceStack (userEnterTrampoline stackEnd rip rsp : Word) : InitialStack where
  kernelSp := alignTop stackEnd - 104
  written := [userEnterTrampoline, rsp, rip, userSstatus] ++ List.replicate 9 0

def userStartRegs (rip rsp : Word) : RiscvRegister → Word
  | .s0 => rsp
  | .s1 => rip
  | .s2 => userSstatus
  | _ => 0

def switchCode : SwitchCode RiscvRegister where
  sp := .sp
  curSp := .a0
  nextSp := .a1
  link := some .ra
  calleeSaved := saved
  frame := none :: saved.map some
  saveFrame := .add .sp .sp (-104) :: storeBlock .sp 0 (.ra :: saved)
  exchange := [.store .sp .a0 0, move .sp .a1]
  restoreFrame := loadBlock .sp 0 (.ra :: saved) ++ [.add .sp .sp 104]
  taskInit := fun trampolines stackEnd start => match start with
    | .kernel entry => some (taskInitStack stackEnd entry)
    | .user rip rsp | .fork rip rsp _ _ =>
        some (taskInitUserspaceStack trampolines.userEnter stackEnd rip rsp)
  startContext := fun trampolines stackEnd start => match start with
    | .kernel entry => ⟨fun _ => 0, alignTop stackEnd, entry⟩
    | .user rip rsp | .fork rip rsp _ _ =>
        ⟨userStartRegs rip rsp, alignTop stackEnd, trampolines.userEnter⟩

theorem lawful : switchCode.Lawful where
  distinct := by decide
  savedArguments := by decide
  frameSaved := by decide
  saves := SwitchCode.linked_saves .ra saved rfl rfl rfl (by decide)
    (by decide) (by decide) (by decide) (by decide)
  exchanges := by
    intro cpu
    rw [switchCode, run_cons, run_cons, run_nil, execute_store_here, execute_move]
    exact ⟨rfl, rfl⟩
  restores := SwitchCode.linked_restores .ra saved rfl rfl rfl (by decide)
    (by decide) (by decide)
  starts := by
    intro trampolines stackEnd start stack initial
    cases start with
    | kernel entry =>
        cases initial
        refine ⟨⟨[], rfl⟩, ?_, rfl, Nat.le_of_ble_eq_true rfl⟩
        show alignTop stackEnd = alignTop stackEnd - 104 + words 13
        unfold words
        bv_omega
    | user rip rsp | fork rip rsp =>
        cases initial
        refine ⟨⟨[], rfl⟩, ?_, rfl, Nat.le_of_ble_eq_true rfl⟩
        show alignTop stackEnd = alignTop stackEnd - 104 + words 13
        unfold words
        bv_omega

end Riscv

inductive Aarch64Register where
  | x (index : Fin 31)
  | sp
  | elrEl1
  | spsrEl1
  deriving DecidableEq

namespace Aarch64

def saved : List Aarch64Register :=
  [.x 29, .x 19, .x 20, .x 21, .x 22, .x 23, .x 24, .x 25, .x 26, .x 27, .x 28]

def taskInitStack (stackEnd entry : Word) : InitialStack where
  kernelSp := alignTop stackEnd - 96
  written := entry :: List.replicate 11 0

/-- User tasks are `unimplemented!` on this processor. -/
def switchCode : SwitchCode Aarch64Register where
  sp := .sp
  curSp := .x 0
  nextSp := .x 1
  link := some (.x 30)
  calleeSaved := saved
  frame := none :: saved.map some
  saveFrame := .add .sp .sp (-96) :: storeBlock .sp 0 (.x 30 :: saved)
  exchange := [move (.x 2) .sp, .store (.x 2) (.x 0) 0, move .sp (.x 1)]
  restoreFrame := loadBlock .sp 0 (.x 30 :: saved) ++ [.add .sp .sp 96]
  taskInit := fun _ stackEnd start => match start with
    | .kernel entry => some (taskInitStack stackEnd entry)
    | .user _ _ | .fork _ _ _ _ => none
  startContext := fun _ stackEnd start => match start with
    | .kernel entry => ⟨fun _ => 0, alignTop stackEnd, entry⟩
    | .user rip _ | .fork rip _ _ _ => ⟨fun _ => 0, alignTop stackEnd, rip⟩

theorem lawful : switchCode.Lawful where
  distinct := by decide
  savedArguments := by decide
  frameSaved := by decide
  saves := SwitchCode.linked_saves (.x 30) saved rfl rfl rfl (by decide)
    (by decide) (by decide) (by decide) (by decide)
  exchanges := by
    intro cpu
    rw [switchCode, run_cons, run_cons, run_cons, run_nil, execute_move, execute_store_here,
      execute_move]
    exact ⟨rfl, rfl⟩
  restores := SwitchCode.linked_restores (.x 30) saved rfl rfl rfl (by decide)
    (by decide) (by decide)
  starts := by
    intro trampolines stackEnd start stack initial
    cases start with
    | kernel entry =>
        cases initial
        refine ⟨⟨[], rfl⟩, ?_, rfl, Nat.le_of_ble_eq_true rfl⟩
        show alignTop stackEnd = alignTop stackEnd - 96 + words 12
        unfold words
        bv_omega
    | user rip rsp | fork rip rsp => nomatch initial

end Aarch64

end Ferrugem.ContextSwitches
