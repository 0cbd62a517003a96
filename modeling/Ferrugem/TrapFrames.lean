import Mathlib.Data.Fin.VecNotation
import Ferrugem.ContextSwitches

/-!
# Trap frames on RISC-V and aarch64

`trap_entry` of `arch/riscv64/trap.rs` and `vec_irq` of `arch/aarch64/exceptions.rs`
around a handler that gives back the stack pointer. The frame holds the general-purpose
registers of the interrupted code with its address and status; the return loads it as
the handler left it. So a trap does to these registers what the handler does to the
frame. `vec_irq` saves no floating-point or vector register.
-/

namespace Ferrugem.TrapFrames

open WordStack RegisterPrograms
open Ferrugem.ContextSwitches

set_option autoImplicit false

/-- The fields of `TrapFrame` from `t1` to `t6`. -/
def fromT1 : List RiscvRegister :=
  [.t1, .t2, .s0, .s1, .a0, .a1, .a2, .a3, .a4, .a5, .a6, .a7,
    .s2, .s3, .s4, .s5, .s6, .s7, .s8, .s9, .s10, .s11, .t3, .t4, .t5, .t6]

/-- The fields of `TrapFrame` in order. -/
def frameOrder : List RiscvRegister :=
  [.ra, .sp, .gp, .tp, .t0] ++ fromT1 ++ [.sepc, .sstatus]

def frameSize : Word := words 33

abbrev TrapFrame := RiscvRegister → Word

def frameAt (memory : Memory) (base : Word) : TrapFrame := fun reg =>
  memory (base + words (frameOrder.idxOf reg))

/-- `csrrw sp, sscratch, sp` -/
def swapScratch (cpu : Cpu RiscvRegister) : Cpu RiscvRegister :=
  (cpu.set .sp (cpu.regs .sscratch)).set .sscratch (cpu.regs .sp)

/-- The branch for traps from the kernel, after the second swap. -/
def supervisorPath (cpu : Cpu RiscvRegister) : Cpu RiscvRegister :=
  run
    [.add .sp .sp (-frameSize), .store .t0 .sp (words 4), .add .t0 .sp frameSize,
      .store .ra .sp (words 0), .store .t0 .sp (words 1), .store .gp .sp (words 2),
      .store .tp .sp (words 3)]
    cpu

/-- The branch for traps from user mode, with `csrrw t0, sscratch, zero` in its middle. -/
def userPath (cpu : Cpu RiscvRegister) : Cpu RiscvRegister :=
  let reserved := run [.add .sp .sp (-frameSize), .store .t0 .sp (words 4)] cpu
  run
    [.store .ra .sp (words 0), .store .t0 .sp (words 1), .store .gp .sp (words 2),
      .store .tp .sp (words 3)]
    ((reserved.set .t0 (reserved.regs .sscratch)).set .sscratch 0)

def commonSave : List (Instruction RiscvRegister) :=
  storeBlock .sp (words 5) fromT1 ++
    [move .t0 .sepc, .store .t0 .sp (words 31), move .t0 .sstatus, .store .t0 .sp (words 32),
      move .a0 .sp]

/-- `trap_entry` up to the call of `trap_handler`. -/
def enterTrap (cpu : Cpu RiscvRegister) : Cpu RiscvRegister :=
  let swapped := swapScratch cpu
  run commonSave
    (if swapped.regs .sp ≠ 0 then userPath swapped else supervisorPath (swapScratch swapped))

/-- `trap_entry` from the return of `trap_handler` to its `sret`. -/
def leaveTrap (cpu : Cpu RiscvRegister) : Cpu RiscvRegister :=
  let status := run
    [.load .t0 .sp (words 31), move .sepc .t0, .load .t0 .sp (words 32), move .sstatus .t0] cpu
  let returning :=
    if status.regs .t0 &&& 256 = 0 then
      run [.add .t0 .sp frameSize, move .sscratch .t0] status
    else status
  let restored := run
    (loadBlock .sp (words 0) [.ra] ++ loadBlock .sp (words 2) ([.gp, .tp, .t0] ++ fromT1) ++
      [.load .sp .sp (words 1)])
    returning
  { restored with pc := restored.regs .sepc }

/-- The handler takes the processor from its call to its return, if it returns. -/
def trapEntry (handler : Cpu RiscvRegister → Option (Cpu RiscvRegister))
    (cpu : Cpu RiscvRegister) : Option (Cpu RiscvRegister) :=
  (handler (enterTrap cpu)).map leaveTrap

/-- Where the frame ends: the kernel stack of the task, or the stack that the kernel is on. -/
def frameTop (cpu : Cpu RiscvRegister) : Word :=
  if cpu.regs .sscratch = 0 then cpu.regs .sp else cpu.regs .sscratch

structure Branched (cpu after : Cpu RiscvRegister) (base : Word) : Prop where
  sp : after.regs .sp = base
  scratch : after.regs .sscratch = 0
  others : ∀ reg, reg ∈ fromT1 ++ [.sepc, .sstatus] → after.regs reg = cpu.regs reg
  slots : ∀ reg ∈ [RiscvRegister.ra, .sp, .gp, .tp, .t0],
    frameAt after.memory base reg = cpu.regs reg

theorem branched_slots {cpu : Cpu RiscvRegister} {memory : Memory} {base : Word}
    (ra : memory (base + words 0) = cpu.regs .ra) (sp : memory (base + words 1) = cpu.regs .sp)
    (gp : memory (base + words 2) = cpu.regs .gp) (tp : memory (base + words 3) = cpu.regs .tp)
    (t0 : memory (base + words 4) = cpu.regs .t0) :
    ∀ reg ∈ [RiscvRegister.ra, .sp, .gp, .tp, .t0], frameAt memory base reg = cpu.regs reg := by
  intro reg member
  simp only [List.mem_cons, List.not_mem_nil, or_false] at member
  rcases member with rfl | rfl | rfl | rfl | rfl
  · exact ra
  · exact sp
  · exact gp
  · exact tp
  · exact t0

theorem supervisor_branched {cpu : Cpu RiscvRegister} {base : Word}
    (reserved : cpu.regs .sp + -frameSize = base) (scratch : cpu.regs .sscratch = 0) :
    Branched cpu (supervisorPath cpu) base := by
  have back : base + frameSize = cpu.regs .sp := by bv_omega
  have others : ∀ reg, reg ≠ .sp → reg ≠ .t0 →
      (supervisorPath cpu).regs reg = cpu.regs reg := by
    intro reg notSp notT0
    simp only [supervisorPath, run_cons, run_nil, execute, Cpu.set,
      Function.update_of_ne notSp, Function.update_of_ne notT0]
  constructor
  · simp [supervisorPath, execute, Cpu.set, reserved]
  · rw [others .sscratch (by decide) (by decide), scratch]
  · intro reg member
    exact others reg (ne_of_mem_of_not_mem member (by decide))
      (ne_of_mem_of_not_mem member (by decide))
  · apply branched_slots <;>
      simp (disch := decide) [supervisorPath, execute, Cpu.set, reserved, back, update_slot,
        -words_zero, -words_one]

theorem user_branched {cpu : Cpu RiscvRegister} {base : Word}
    (reserved : cpu.regs .sp + -frameSize = base) :
    Branched (cpu.set .sp (cpu.regs .sscratch)) (userPath cpu) base := by
  constructor
  · simp [userPath, execute, Cpu.set, reserved]
  · simp only [userPath, run_cons, run_nil, execute, Cpu.set, Function.update_self]
  · intro reg member
    have notSp : reg ≠ .sp := ne_of_mem_of_not_mem member (by decide)
    have notT0 : reg ≠ .t0 := ne_of_mem_of_not_mem member (by decide)
    have notScratch : reg ≠ .sscratch := ne_of_mem_of_not_mem member (by decide)
    simp only [userPath, run_cons, run_nil, execute, Cpu.set, Function.update_of_ne notSp,
      Function.update_of_ne notT0, Function.update_of_ne notScratch]
  · apply branched_slots <;>
      simp (disch := decide) [userPath, execute, Cpu.set, reserved, update_slot, -words_zero,
        -words_one]

theorem slot_of_t1 (reg : RiscvRegister) (member : reg ∈ fromT1) :
    frameOrder.idxOf reg = 5 + fromT1.idxOf reg := by
  revert member
  cases reg <;> decide

theorem slot_of_first (reg : RiscvRegister)
    (member : reg ∈ [RiscvRegister.ra, .sp, .gp, .tp, .t0]) :
    frameOrder.idxOf reg < 5 := by
  revert member
  cases reg <;> decide

theorem common_save_memory {cpu : Cpu RiscvRegister} {base : Word} (sp : cpu.regs .sp = base) :
    (run commonSave cpu).memory =
      Function.update (Function.update
        (writeWords cpu.memory (base + words 5) (fromT1.map cpu.regs))
        (base + words 31) (cpu.regs .sepc)) (base + words 32) (cpu.regs .sstatus) := by
  have apart : RiscvRegister.sp ≠ .t0 := by decide
  have status : RiscvRegister.sstatus ≠ .t0 := by decide
  rw [commonSave, run_append, run_store_block, sp]
  simp only [run_cons, run_nil, execute_move, execute_store, Cpu.set, Function.update_self,
    Function.update_of_ne apart, Function.update_of_ne status, sp]

theorem Branched.saved {cpu after : Cpu RiscvRegister} {base : Word}
    (branched : Branched cpu after base) :
    (run commonSave after).regs .sp = base ∧ (run commonSave after).regs .sscratch = 0 ∧
      ∀ reg ∈ frameOrder, frameAt (run commonSave after).memory base reg = cpu.regs reg := by
  have others : ∀ reg, reg ≠ .t0 → reg ≠ .a0 →
      (run commonSave after).regs reg = after.regs reg := by
    intro reg notT0 notA0
    rw [commonSave, run_append, run_store_block]
    simp only [run_cons, run_nil, execute_move, execute_store, Cpu.set, Function.update_of_ne notT0,
      Function.update_of_ne notA0]
  refine ⟨(others .sp (by decide) (by decide)).trans branched.sp,
    (others .sscratch (by decide) (by decide)).trans branched.scratch, ?_⟩
  intro reg member
  rw [frameAt, common_save_memory branched.sp]
  have length : (fromT1.map after.regs).length = 26 := rfl
  rw [frameOrder, List.mem_append, List.mem_append] at member
  rcases member with (first | inside) | last
  · have slot := slot_of_first reg first
    rw [update_slot _ _ _ (by decide) (by omega), if_neg (by omega),
      update_slot _ _ _ (by decide) (by omega), if_neg (by omega),
      block_slot_outside _ _ (.inl slot) (by omega) (by omega)]
    exact branched.slots reg first
  · have place : fromT1.idxOf reg < (fromT1.map after.regs).length := by
      rw [List.length_map]
      exact List.idxOf_lt_length_of_mem inside
    rw [slot_of_t1 reg inside, update_slot _ _ _ (by decide) (by omega), if_neg (by omega),
      update_slot _ _ _ (by decide) (by omega), if_neg (by omega),
      block_slot_inside _ _ _ _ _ place (by omega), List.getElem_map, List.getElem_idxOf]
    exact branched.others reg (List.mem_append_left _ inside)
  · have csr := branched.others reg (List.mem_append_right _ last)
    simp only [List.mem_cons, List.not_mem_nil, or_false] at last
    cases last with
    | inl sepc =>
        subst sepc
        have slot : frameOrder.idxOf RiscvRegister.sepc = 31 := by decide
        rw [slot, update_slot _ _ _ (by decide) (by decide), if_neg (by decide),
          Function.update_self]
        exact csr
    | inr sstatus =>
        subst sstatus
        have slot : frameOrder.idxOf RiscvRegister.sstatus = 32 := by decide
        rw [slot, Function.update_self]
        exact csr

theorem enter_trap (cpu : Cpu RiscvRegister) :
    (enterTrap cpu).regs .sp = frameTop cpu - frameSize ∧
      (enterTrap cpu).regs .sscratch = 0 ∧
      ∀ reg ∈ frameOrder,
        frameAt (enterTrap cpu).memory (frameTop cpu - frameSize) reg = cpu.regs reg := by
  have swappedSp : (swapScratch cpu).regs .sp = cpu.regs .sscratch := by
    simp [swapScratch, Cpu.set]
  have swappedScratch : (swapScratch cpu).regs .sscratch = cpu.regs .sp := by
    simp [swapScratch, Cpu.set]
  have swappedOther : ∀ reg, reg ≠ .sp → reg ≠ .sscratch →
      (swapScratch cpu).regs reg = cpu.regs reg := by
    intro reg notSp notScratch
    simp only [swapScratch, Cpu.set, Function.update_of_ne notSp,
      Function.update_of_ne notScratch]
  have inFrame : ∀ reg ∈ frameOrder, reg ≠ .sscratch := fun reg member =>
    ne_of_mem_of_not_mem member (by decide)
  by_cases kernel : cpu.regs .sscratch = 0
  · have twice : swapScratch (swapScratch cpu) = cpu := by
      obtain ⟨regs, pc, memory⟩ := cpu
      simp only [swapScratch, Cpu.set, Cpu.mk.injEq, and_true]
      funext reg
      cases reg <;> simp [Function.update]
    have top : frameTop cpu = cpu.regs .sp := if_pos kernel
    have reserved : cpu.regs .sp + -frameSize = cpu.regs .sp - frameSize := by bv_omega
    have saved := (supervisor_branched reserved kernel).saved
    have path : enterTrap cpu = run commonSave (supervisorPath cpu) := by
      rw [enterTrap]
      rw [if_neg (by rw [swappedSp, kernel]; decide), twice]
    rw [path, top]
    exact saved
  · have top : frameTop cpu = cpu.regs .sscratch := if_neg kernel
    have reserved : (swapScratch cpu).regs .sp + -frameSize = cpu.regs .sscratch - frameSize := by
      rw [swappedSp]
      bv_omega
    obtain ⟨sp, scratch, frame⟩ := (user_branched reserved).saved
    have path : enterTrap cpu = run commonSave (userPath (swapScratch cpu)) := by
      rw [enterTrap]
      rw [if_pos (by rw [swappedSp]; exact kernel)]
    rw [path, top]
    refine ⟨sp, scratch, ?_⟩
    intro reg member
    rw [frame reg member]
    by_cases pointer : reg = .sp
    · rw [pointer, Cpu.set_self, swappedScratch]
    · rw [Cpu.set_other _ _ pointer, swappedOther reg pointer (inFrame reg member)]

theorem frame_reads (memory : Memory) (base : Word) (k : Nat) (targets : List RiscvRegister)
    (slots : ∀ i, ∀ _ : i < targets.length, frameOrder.idxOf targets[i] = k + i) :
    Reads memory (base + words k) targets (frameAt memory base) := by
  intro i bound
  rw [frameAt, slots i bound, words_add, BitVec.add_assoc]

theorem restore_loads {cpu : Cpu RiscvRegister} {base : Word} (sp : cpu.regs .sp = base) :
    let restored := run
      (loadBlock .sp (words 0) [.ra] ++ loadBlock .sp (words 2) ([.gp, .tp, .t0] ++ fromT1) ++
        [.load .sp .sp (words 1)]) cpu
    restored.memory = cpu.memory ∧
      (∀ reg ∈ [RiscvRegister.ra, .sp, .gp, .tp, .t0] ++ fromT1,
        restored.regs reg = frameAt cpu.memory base reg) ∧
      ∀ reg, reg ∉ [RiscvRegister.ra, .sp, .gp, .tp, .t0] ++ fromT1 →
        restored.regs reg = cpu.regs reg := by
  intro restored
  have firstReads := frame_reads cpu.memory base 0 [.ra] (by decide)
  rw [← sp] at firstReads
  have first := run_load_block (by decide) (by decide) firstReads
  have shape : restored = execute (run (loadBlock .sp (words 2) ([.gp, .tp, .t0] ++ fromT1))
      (run (loadBlock .sp (words 0) [.ra]) cpu)) (.load .sp .sp (words 1)) := by
    show run _ cpu = _
    rw [run_append, run_append]
    rfl
  generalize run (loadBlock .sp (words 0) [.ra]) cpu = one at first shape
  have oneSp : one.regs .sp = base := (first.2.2.2 .sp (by decide)).trans sp
  have blockReads := frame_reads one.memory base 2 ([.gp, .tp, .t0] ++ fromT1) (by decide)
  rw [← oneSp] at blockReads
  have block := run_load_block (by decide) (by decide) blockReads
  generalize run (loadBlock .sp (words 2) ([.gp, .tp, .t0] ++ fromT1)) one = two at block shape
  have twoSp : two.regs .sp = base := (block.2.2.2 .sp (by decide)).trans oneSp
  have memory : two.memory = cpu.memory := block.2.1.trans first.2.1
  rw [first.2.1, oneSp] at block
  rw [sp] at first
  rw [shape, execute_load]
  refine ⟨memory, ?_, ?_⟩
  · intro reg member
    by_cases pointer : reg = .sp
    · rw [pointer, Cpu.set_self, twoSp, memory]
      rfl
    · rw [Cpu.set_other _ _ pointer]
      by_cases inBlock : reg ∈ [RiscvRegister.gp, .tp, .t0] ++ fromT1
      · exact block.2.2.1 reg inBlock
      · have ra : reg ∈ [RiscvRegister.ra] := by
          simp only [List.mem_append, List.mem_cons, List.not_mem_nil, or_false] at member inBlock ⊢
          grind
        rw [block.2.2.2 reg inBlock]
        exact first.2.2.1 reg ra
  · intro reg outside
    have notSp : reg ≠ .sp := by
      intro same
      subst same
      exact outside (by decide)
    have notRa : reg ∉ [RiscvRegister.ra] := by
      intro member
      rw [List.mem_singleton] at member
      subst member
      exact outside (by decide)
    have notBlock : reg ∉ [RiscvRegister.gp, .tp, .t0] ++ fromT1 := by
      simp only [List.mem_append, List.mem_cons, List.not_mem_nil, or_false] at outside ⊢
      grind
    rw [Cpu.set_other _ _ notSp, block.2.2.2 reg notBlock, first.2.2.2 reg notRa]

theorem leave_trap {cpu : Cpu RiscvRegister} {base : Word} (sp : cpu.regs .sp = base) :
    (∀ reg ∈ frameOrder, (leaveTrap cpu).regs reg = frameAt cpu.memory base reg) ∧
      (leaveTrap cpu).pc = frameAt cpu.memory base .sepc ∧
      (leaveTrap cpu).memory = cpu.memory ∧
      (leaveTrap cpu).regs .sscratch =
        if frameAt cpu.memory base .sstatus &&& 256 = 0 then base + frameSize
        else cpu.regs .sscratch := by
  have sepcSlot : cpu.memory (base + words 31) = frameAt cpu.memory base .sepc := rfl
  have statusSlot : cpu.memory (base + words 32) = frameAt cpu.memory base .sstatus := rfl
  rw [leaveTrap]
  generalize first : run
    [.load .t0 .sp (words 31), move .sepc .t0, .load .t0 .sp (words 32), move .sstatus .t0] cpu =
      status
  have statusMemory : status.memory = cpu.memory := by rw [← first]; rfl
  have statusSp : status.regs .sp = base := by
    rw [← first]
    simp (disch := decide) only [run_cons, run_nil, execute_move, execute_load, Cpu.set_other, sp]
  have statusScratch : status.regs .sscratch = cpu.regs .sscratch := by
    rw [← first]
    simp (disch := decide) only [run_cons, run_nil, execute_move, execute_load, Cpu.set_other]
  have statusSepc : status.regs .sepc = frameAt cpu.memory base .sepc := by
    rw [← first, ← sepcSlot, ← sp]
    simp (disch := decide) only [run_cons, run_nil, execute_move, execute_load, Cpu.set_other,
      Cpu.set_self]
  have statusT0 : status.regs .t0 = frameAt cpu.memory base .sstatus := by
    rw [← first, ← statusSlot, ← sp]
    simp (disch := decide) only [run_cons, run_nil, execute_move, execute_load, Cpu.set_other,
      Cpu.set_self]
    rfl
  have statusStatus : status.regs .sstatus = frameAt cpu.memory base .sstatus := by
    rw [← statusT0, ← first]
    simp (disch := decide) only [run_cons, run_nil, execute_move, execute_load, Cpu.set_other,
      Cpu.set_self]
  rw [statusT0]
  generalize chosen : (if frameAt cpu.memory base .sstatus &&& 256 = 0 then
      run [.add .t0 .sp frameSize, move .sscratch .t0] status else status) = returning
  have memory : returning.memory = cpu.memory := by
    rw [← chosen, ← statusMemory]
    split <;> rfl
  have scratch : returning.regs .sscratch =
      if frameAt cpu.memory base .sstatus &&& 256 = 0 then base + frameSize
      else cpu.regs .sscratch := by
    rw [← chosen, ← statusScratch, ← statusSp]
    split
    · simp only [run_cons, run_nil, execute_move, execute_add, Cpu.set_self]
    · rfl
  have others : ∀ reg, reg ≠ .t0 → reg ≠ .sscratch → returning.regs reg = status.regs reg := by
    intro reg notT0 notScratch
    rw [← chosen]
    split
    · simp only [run_cons, run_nil, execute_move, execute_add, Cpu.set_other _ _ notT0,
        Cpu.set_other _ _ notScratch]
    · rfl
  have returningSp : returning.regs .sp = base :=
    (others .sp (by decide) (by decide)).trans statusSp
  obtain ⟨restoredMemory, loaded, kept⟩ := restore_loads returningSp
  rw [memory] at restoredMemory loaded
  have sepc := (kept .sepc (by decide)).trans
    ((others .sepc (by decide) (by decide)).trans statusSepc)
  have sstatus := (kept .sstatus (by decide)).trans
    ((others .sstatus (by decide) (by decide)).trans statusStatus)
  refine ⟨?_, sepc, restoredMemory, (kept .sscratch (by decide)).trans scratch⟩
  intro reg member
  rw [frameOrder, List.mem_append] at member
  cases member with
  | inl general => exact loaded reg general
  | inr control =>
      simp only [List.mem_cons, List.not_mem_nil, or_false] at control
      cases control with
      | inl same =>
          subst same
          exact sepc
      | inr same =>
          subst same
          exact sstatus

/-- What `trap_handler` calls, from the processor and memory at its own call; `none`
where a call does not come back. `dispatch` stands for the system call with what
`take_exec_ctx` finds after it. -/
structure Services where
  tick : Cpu RiscvRegister → Option Unit
  plicHandle : Cpu RiscvRegister → Option Unit
  dispatch : Cpu RiscvRegister → Word → (Fin 6 → Word) → Option (Word × Option (Word × Word))
  handleUserPageFault : Cpu RiscvRegister → Word → Option Bool

def sppBit : Word := 256

def interruptBit : Word := 0x8000000000000000

def answered (frame : TrapFrame) (answer : Word × Option (Word × Word)) : TrapFrame :=
  let returned := Function.update frame .a0 answer.1
  match answer.2 with
  | some (newIp, newSp) => Function.update (Function.update returned .sepc newIp) .sp newSp
  | none => Function.update returned .sepc (frame .sepc + 4)

/-- `trap_handler` on the frame, called on the processor `entered`; `none` where it does
not return. -/
def trapHandler (services : Services) (entered : Cpu RiscvRegister) (scause stval : Word)
    (frame : TrapFrame) : Option TrapFrame :=
  let cause := scause &&& ~~~interruptBit
  if scause &&& interruptBit ≠ 0 then
    if cause = 5 then (services.tick entered).map fun _ => frame
    else if cause = 9 then (services.plicHandle entered).map fun _ => frame
    else some frame
  else if cause = 8 then
    (services.dispatch entered (frame .a7)
      ![frame .a0, frame .a1, frame .a2, frame .a3, frame .a4, frame .a5]).map (answered frame)
  else if cause = 9 then some (Function.update frame .sepc (frame .sepc + 4))
  else if cause = 12 ∨ cause = 13 ∨ cause = 15 then
    if frame .sstatus &&& sppBit = 0 then
      (services.handleUserPageFault entered stval).bind fun mapped =>
        if mapped then some frame else none
    else none
  else none

/-- Compiled code of `trap_handler` at one call: it gives back the stack pointer, and the
frame is as the function leaves it. Every other register may change. -/
def RunsTrapHandler (services : Services) (scause stval : Word)
    (handler : Cpu RiscvRegister → Option (Cpu RiscvRegister))
    (entered : Cpu RiscvRegister) : Prop :=
  Option.Rel
    (fun (left : Cpu RiscvRegister) (frame : TrapFrame) =>
      left.regs .sp = entered.regs .sp ∧
        ∀ reg ∈ frameOrder, frameAt left.memory (entered.regs .sp) reg = frame reg)
    (handler entered)
    (trapHandler services entered scause stval (frameAt entered.memory (entered.regs .sp)))

/-- A program resumed with the registers of a frame, in user mode ready for its next trap. -/
structure ResumesWith (top : Word) (after : Cpu RiscvRegister) (frame : TrapFrame) : Prop where
  regs : ∀ reg ∈ frameOrder, after.regs reg = frame reg
  pc : after.pc = frame .sepc
  scratch : frame .sstatus &&& sppBit = 0 → after.regs .sscratch = top

def Agree (first second : TrapFrame) : Prop := ∀ reg ∈ frameOrder, first reg = second reg

theorem Agree.update {first second : TrapFrame} (agree : Agree first second)
    (target : RiscvRegister) (value : Word) :
    Agree (Function.update first target value) (Function.update second target value) := by
  intro reg member
  by_cases same : reg = target
  · rw [same, Function.update_self, Function.update_self]
  · rw [Function.update_of_ne same, Function.update_of_ne same, agree reg member]

theorem Agree.answered {first second : TrapFrame} (agree : Agree first second)
    (answer : Word × Option (Word × Word)) :
    Agree (answered first answer) (answered second answer) := by
  have sepc := agree .sepc (by decide)
  unfold TrapFrames.answered
  dsimp only
  rw [sepc]
  split
  · exact ((agree.update _ _).update _ _).update _ _
  · exact (agree.update _ _).update _ _

theorem rel_map_agree {Answer : Type} (answer : Option Answer)
    {first second : Answer → TrapFrame} (agree : ∀ given, Agree (first given) (second given)) :
    Option.Rel Agree (answer.map first) (answer.map second) := by
  cases answer with
  | none => exact .none
  | some given => exact .some (agree given)

/-- `trap_handler` itself reads nothing but the fields of the frame. -/
theorem trap_handler_congr (services : Services) (entered : Cpu RiscvRegister)
    (scause stval : Word) {first second : TrapFrame} (agree : Agree first second) :
    Option.Rel Agree (trapHandler services entered scause stval first)
      (trapHandler services entered scause stval second) := by
  have a0 := agree .a0 (by decide)
  have a1 := agree .a1 (by decide)
  have a2 := agree .a2 (by decide)
  have a3 := agree .a3 (by decide)
  have a4 := agree .a4 (by decide)
  have a5 := agree .a5 (by decide)
  have a7 := agree .a7 (by decide)
  have sepc := agree .sepc (by decide)
  have sstatus := agree .sstatus (by decide)
  unfold trapHandler
  dsimp only
  rw [a0, a1, a2, a3, a4, a5, a7, sepc, sstatus]
  split
  · split
    · exact rel_map_agree _ fun _ => agree
    · split
      · exact rel_map_agree _ fun _ => agree
      · exact .some agree
  · split
    · exact rel_map_agree _ agree.answered
    · split
      · exact .some (agree.update _ _)
      · split
        · split
          · cases services.handleUserPageFault entered stval with
            | none => exact .none
            | some mapped =>
                cases mapped with
                | true => exact .some agree
                | false => exact .none
          · exact .none
        · exact .none

/-- A trap does to the registers of the interrupted program what `trap_handler`
does to a frame with these registers, and returns exactly when it returns. -/
theorem trap_entry_applies_handler (services : Services) (scause stval : Word)
    (handler : Cpu RiscvRegister → Option (Cpu RiscvRegister)) (cpu : Cpu RiscvRegister)
    (runs : RunsTrapHandler services scause stval handler (enterTrap cpu)) :
    Option.Rel (ResumesWith (frameTop cpu)) (trapEntry handler cpu)
      (trapHandler services (enterTrap cpu) scause stval cpu.regs) := by
  obtain ⟨sp, -, frame⟩ := enter_trap cpu
  have back : frameTop cpu - frameSize + frameSize = frameTop cpu := by bv_omega
  have same := trap_handler_congr services (enterTrap cpu) scause stval
    (show Agree _ cpu.regs from frame)
  have ran := runs
  unfold RunsTrapHandler at ran
  rw [sp] at ran
  rw [trapEntry]
  generalize handler (enterTrap cpu) = outcome at ran ⊢
  generalize trapHandler services (enterTrap cpu) scause stval
    (frameAt (enterTrap cpu).memory (frameTop cpu - frameSize)) = left at ran same
  generalize trapHandler services (enterTrap cpu) scause stval cpu.regs = expected at same ⊢
  cases ran with
  | none =>
      cases same
      exact .none
  | some kept =>
      cases same with
      | some agree =>
          obtain ⟨loaded, pc, -, scratch⟩ := leave_trap kept.1
          refine .some ⟨?_, ?_, ?_⟩
          · intro reg member
            rw [loaded reg member, kept.2 reg member, agree reg member]
          · rw [pc, kept.2 .sepc (by decide), agree .sepc (by decide)]
          · intro user
            rw [scratch, kept.2 .sstatus (by decide), agree .sstatus (by decide)]
            exact (if_pos user).trans back

/-- A user program with its kernel stack in `sscratch`. -/
def userProgram : Cpu RiscvRegister where
  regs := fun reg => match reg with
    | .sscratch => 0x80010000
    | .sepc => 0x100001000
    | _ => 7
  pc := 0x80200000
  memory := fun _ => 0

def onlyTicks : Services where
  tick := fun _ => some ()
  plicHandle := fun _ => none
  dispatch := fun _ _ _ => none
  handleUserPageFault := fun _ _ => none

theorem timer_tick_resumes_program :
    Option.Rel (ResumesWith (frameTop userProgram)) (trapEntry some userProgram)
      (trapHandler onlyTicks (enterTrap userProgram) 0x8000000000000005 0 userProgram.regs) :=
  trap_entry_applies_handler onlyTicks 0x8000000000000005 0 some userProgram
    (.some ⟨rfl, fun _ _ => rfl⟩)

abbrev x0 : Aarch64Register := .x ⟨0, Nat.zero_lt_succ 30⟩

/-- `x0` to `x30`. -/
def generalRegisters : List Aarch64Register := (List.finRange 31).map .x

/-- `x1` to `x30`. -/
def fromX1 : List Aarch64Register := generalRegisters.tail

def irqFrameSize : Word := words 34

/-- `vec_irq` up to the call of `aarch64_irq_handler`. -/
def enterIrq : List (Instruction Aarch64Register) :=
  .add .sp .sp (-irqFrameSize) :: storeBlock .sp (words 0) generalRegisters ++
    [move x0 .elrEl1, .store x0 .sp (words 31), move x0 .spsrEl1,
      .store x0 .sp (words 32), move x0 .sp]

/-- `vec_irq` from the return of the handler to its `eret`. -/
def leaveIrq : List (Instruction Aarch64Register) :=
  [.load x0 .sp (words 31), move .elrEl1 x0, .load x0 .sp (words 32),
      move .spsrEl1 x0] ++
    loadBlock .sp (words 1) fromX1 ++
    [.load x0 .sp (words 0), .add .sp .sp irqFrameSize]

def vecIrq (handler : Cpu Aarch64Register → Option (Cpu Aarch64Register))
    (cpu : Cpu Aarch64Register) : Option (Cpu Aarch64Register) :=
  (handler (run enterIrq cpu)).map fun left =>
    let restored := run leaveIrq left
    { restored with pc := restored.regs .elrEl1 }

/-- Compiled code that keeps the stack pointer and the frame it was passed. -/
def KeepsFrame (handler : Cpu Aarch64Register → Option (Cpu Aarch64Register)) : Prop :=
  ∀ entered left, handler entered = some left →
    left.regs .sp = entered.regs .sp ∧ ∀ i < 34,
      left.memory (entered.regs .sp + words i) = entered.memory (entered.regs .sp + words i)

theorem enter_irq (cpu : Cpu Aarch64Register) {base : Word}
    (reserved : cpu.regs .sp + -irqFrameSize = base) :
    (run enterIrq cpu).regs .sp = base ∧
      (∀ i : Fin 31, (run enterIrq cpu).memory (base + words i) = cpu.regs (.x i)) ∧
      (run enterIrq cpu).memory (base + words 31) = cpu.regs .elrEl1 ∧
      (run enterIrq cpu).memory (base + words 32) = cpu.regs .spsrEl1 := by
  have values : generalRegisters.map (cpu.set .sp base).regs =
      (List.finRange 31).map fun i => cpu.regs (.x i) := by
    rw [generalRegisters, List.map_map]
    rfl
  have length : ((List.finRange 31).map fun i => cpu.regs (.x i)).length = 31 := by simp
  have start : run enterIrq cpu = run
      [move x0 .elrEl1, .store x0 .sp (words 31), move x0 .spsrEl1,
        .store x0 .sp (words 32), move x0 .sp]
      { cpu.set .sp base with
        memory := writeWords cpu.memory (base + words 0)
          ((List.finRange 31).map fun i => cpu.regs (.x i)) } := by
    rw [enterIrq, List.cons_append, run_cons, run_append, execute_add, reserved, run_store_block,
      values, Cpu.set_self]
    rfl
  have sp : (run enterIrq cpu).regs .sp = base := by
    rw [start]
    simp (disch := decide) only [run_cons, run_nil, execute_move, execute_store, Cpu.set_other]
    exact Cpu.set_self _ _ _
  have memory : (run enterIrq cpu).memory =
      Function.update (Function.update (writeWords cpu.memory (base + words 0)
        ((List.finRange 31).map fun i => cpu.regs (.x i)))
          (base + words 31) (cpu.regs .elrEl1)) (base + words 32) (cpu.regs .spsrEl1) := by
    rw [start]
    simp (disch := decide) only [run_cons, run_nil, execute_move, execute_store, Cpu.set_other,
      Cpu.set_self]
    rfl
  rw [sp, memory]
  refine ⟨rfl, ?_, ?_, ?_⟩
  · intro i
    have bound : i.val < 31 := i.isLt
    have slot := block_slot_inside cpu.memory base 0 i
      ((List.finRange 31).map fun i => cpu.regs (.x i)) (by omega) (by omega)
    rw [Nat.zero_add] at slot
    rw [update_slot _ _ _ (by decide) (by omega), if_neg (by omega),
      update_slot _ _ _ (by decide) (by omega), if_neg (by omega), slot, List.getElem_map,
      List.getElem_finRange]
    rfl
  · rw [update_slot _ _ _ (by decide) (by decide), if_neg (by decide), Function.update_self]
  · exact Function.update_self _ _ _

theorem leave_irq {cpu : Cpu Aarch64Register} {base : Word} (sp : cpu.regs .sp = base) :
    (∀ i : Fin 31, (run leaveIrq cpu).regs (.x i) = cpu.memory (base + words i)) ∧
      (run leaveIrq cpu).regs .sp = base + irqFrameSize ∧
      (run leaveIrq cpu).regs .elrEl1 = cpu.memory (base + words 31) ∧
      (run leaveIrq cpu).regs .spsrEl1 = cpu.memory (base + words 32) ∧
      (run leaveIrq cpu).memory = cpu.memory := by
  have start : run leaveIrq cpu = run [.load x0 .sp (words 0), .add .sp .sp irqFrameSize]
      (run (loadBlock .sp (words 1) fromX1) (run
        [.load x0 .sp (words 31), move .elrEl1 x0, .load x0 .sp (words 32),
          move .spsrEl1 x0] cpu)) := by
    rw [leaveIrq, run_append, run_append]
  generalize first : run
    [.load x0 .sp (words 31), move .elrEl1 x0, .load x0 .sp (words 32),
      move .spsrEl1 x0] cpu = status at start
  have statusMemory : status.memory = cpu.memory := by rw [← first]; rfl
  have statusSp : status.regs .sp = base := by
    rw [← first]
    simp (disch := decide) only [run_cons, run_nil, execute_move, execute_load, Cpu.set_other, sp]
  have statusElr : status.regs .elrEl1 = cpu.memory (base + words 31) := by
    rw [← first, ← sp]
    simp (disch := decide) only [run_cons, run_nil, execute_move, execute_load, Cpu.set_other,
      Cpu.set_self]
  have statusSpsr : status.regs .spsrEl1 = cpu.memory (base + words 32) := by
    rw [← first, ← sp]
    simp (disch := decide) only [run_cons, run_nil, execute_move, execute_load, Cpu.set_other,
      Cpu.set_self]
    rfl
  have reads : Reads status.memory (status.regs .sp + words 1) fromX1
      fun reg => cpu.memory (base + words (generalRegisters.idxOf reg)) := by
    intro i bound
    have slot : ∀ i, ∀ _ : i < fromX1.length, generalRegisters.idxOf fromX1[i] = 1 + i := by
      decide
    show _ = cpu.memory (base + words (generalRegisters.idxOf fromX1[i]))
    rw [statusMemory, statusSp, slot i bound, words_add, BitVec.add_assoc]
  obtain ⟨-, blockMemory, loaded, kept⟩ := run_load_block (by decide) (by decide) reads
  generalize run (loadBlock .sp (words 1) fromX1) status = block at start blockMemory loaded kept
  have blockSp : block.regs .sp = base := (kept .sp (by decide)).trans statusSp
  rw [start, run_cons, run_cons, run_nil, execute_load, execute_add]
  refine ⟨?_, ?_, ?_, ?_, blockMemory.trans statusMemory⟩
  · intro i
    rw [Cpu.set_other _ _ (by simp)]
    by_cases zero : i = 0
    · rw [zero, show Aarch64Register.x 0 = x0 from rfl, Cpu.set_self, blockSp, blockMemory,
        statusMemory]
      rfl
    · rw [Cpu.set_other _ _ (by simpa using zero)]
      have member : Aarch64Register.x i ∈ fromX1 := by
        revert zero
        revert i
        decide
      have slot : generalRegisters.idxOf (Aarch64Register.x i) = i.val := by
        revert i
        decide
      rw [loaded _ member, slot]
  · rw [Cpu.set_self, Cpu.set_other _ _ (by decide), blockSp]
  · rw [Cpu.set_other _ _ (by decide), Cpu.set_other _ _ (by decide), kept _ (by decide),
      statusElr]
  · rw [Cpu.set_other _ _ (by decide), Cpu.set_other _ _ (by decide), kept _ (by decide),
      statusSpsr]

/-- An interrupt on aarch64 leaves no trace in the general-purpose registers of the
interrupted code, whatever the handler does to them. -/
theorem vec_irq_transparent (handler : Cpu Aarch64Register → Option (Cpu Aarch64Register))
    (keeps : KeepsFrame handler) (cpu after : Cpu Aarch64Register)
    (returned : vecIrq handler cpu = some after) :
    after.regs = cpu.regs ∧ after.pc = cpu.regs .elrEl1 := by
  have back : cpu.regs .sp + -irqFrameSize + irqFrameSize = cpu.regs .sp := by bv_omega
  obtain ⟨sp, general, elr, spsr⟩ := enter_irq cpu rfl
  rw [vecIrq, Option.map_eq_some_iff] at returned
  obtain ⟨left, handled, rfl⟩ := returned
  obtain ⟨leftSp, frame⟩ := keeps _ left handled
  rw [sp] at leftSp frame
  obtain ⟨xs, pointer, leftElr, leftSpsr, -⟩ := leave_irq leftSp
  have elrKept : (run leaveIrq left).regs .elrEl1 = cpu.regs .elrEl1 := by
    rw [leftElr, frame 31 (by decide), elr]
  refine ⟨?_, elrKept⟩
  funext reg
  show (run leaveIrq left).regs reg = cpu.regs reg
  cases reg with
  | x index =>
      have bound : index.val < 31 := index.isLt
      rw [xs index, frame index (by omega), general index]
  | sp => rw [pointer, back]
  | elrEl1 => exact elrKept
  | spsrEl1 => rw [leftSpsr, frame 32 (by decide), spsr]

def idleAarch64 : Cpu Aarch64Register := ⟨fun _ => 0x40080000, 0x200, fun _ => 0⟩

theorem idle_irq_transparent :
    ∃ after, vecIrq some idleAarch64 = some after ∧
      after.regs = idleAarch64.regs ∧ after.pc = idleAarch64.regs .elrEl1 :=
  ⟨_, rfl, vec_irq_transparent some
    (fun _ _ same => by cases same; exact ⟨rfl, fun _ _ => rfl⟩) idleAarch64 _ rfl⟩

end Ferrugem.TrapFrames
