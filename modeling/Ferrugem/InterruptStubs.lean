import Mathlib.Data.List.Nodup
import Ferrugem.Library.WordStack

/-!
# Interrupt stubs

The stubs of `idt.rs` over a register file and the words of the kernel stack. The
stubs of `make_isr!` push all fifteen general registers before anything else
changes one. The stub of the page fault loads `rcx`, `rdx` and `r14` before its
pushes, and pushes neither `rcx` nor `rdx`.
-/

namespace Ferrugem.InterruptStubs

open WordStack

set_option autoImplicit false

/-- The general registers apart from `rsp`. -/
inductive Register where
  | rax | rbx | rcx | rdx | rsi | rdi | rbp
  | r8 | r9 | r10 | r11 | r12 | r13 | r14 | r15
  deriving DecidableEq

structure Cpu where
  regs : Register → Word
  rsp : Word
  rip : Word
  rflags : Word
  cs : Word
  ss : Word
  cr2 : Word
  memory : Memory

inductive Instruction where
  | push (source : Register)
  | pop (target : Register)
  | mov (target source : Register)
  | movImmediate (target : Register) (value : BitVec 32)
  | movCr2 (target : Register)
  | movRsp (target : Register)
  | loadTop (target : Register)
  | call
  deriving DecidableEq

namespace Cpu

def set (cpu : Cpu) (target : Register) (value : Word) : Cpu :=
  { cpu with regs := Function.update cpu.regs target value }

/-- What the processor and `push` do to the stack. -/
def pushWord (cpu : Cpu) (value : Word) : Cpu :=
  { cpu with
    rsp := cpu.rsp - 8
    memory := Function.update cpu.memory (cpu.rsp - 8) value }

def popWord (cpu : Cpu) : Word × Cpu := (cpu.memory cpu.rsp, { cpu with rsp := cpu.rsp + 8 })

def popTo (cpu : Cpu) (target : Register) : Cpu := cpu.popWord.2.set target cpu.popWord.1

end Cpu

/-- One instruction; `handler` takes the processor from the call to the
instruction after it, if it returns. A move to the low half of a register
clears the high half. -/
def execute (handler : Cpu → Option Cpu) (cpu : Cpu) : Instruction → Option Cpu
  | .push source => some (cpu.pushWord (cpu.regs source))
  | .pop target => some (cpu.popTo target)
  | .mov target source => some (cpu.set target (cpu.regs source))
  | .movImmediate target value => some (cpu.set target (value.setWidth 64))
  | .movCr2 target => some (cpu.set target cpu.cr2)
  | .movRsp target => some (cpu.set target cpu.rsp)
  | .loadTop target => some (cpu.set target (cpu.memory cpu.rsp))
  | .call => handler cpu

def executeAll (handler : Cpu → Option Cpu) : List Instruction → Cpu → Option Cpu
  | [], cpu => some cpu
  | instruction :: rest, cpu =>
      (execute handler cpu instruction).bind (executeAll handler rest)

/-- `iretq` from 64-bit code takes all five words off the stack. -/
def iretq (cpu : Cpu) : Cpu :=
  { cpu with
    rip := cpu.memory cpu.rsp
    cs := cpu.memory (cpu.rsp + 8)
    rflags := cpu.memory (cpu.rsp + 8 + 8)
    rsp := cpu.memory (cpu.rsp + 8 + 8 + 8)
    ss := cpu.memory (cpu.rsp + 8 + 8 + 8 + 8) }

/-- The order of the pushes in `make_isr!`. -/
def isrPushes : List Register :=
  [.rax, .rbx, .rcx, .rdx, .rsi, .rdi, .rbp, .r8, .r9, .r10, .r11, .r12, .r13, .r14, .r15]

def isrPops : List Register :=
  [.r15, .r14, .r13, .r12, .r11, .r10, .r9, .r8, .rbp, .rdi, .rsi, .rdx, .rcx, .rbx, .rax]

/-- `make_isr!` up to its `iretq`. -/
def makeIsr (vec : BitVec 32) : List Instruction :=
  isrPushes.map .push ++ [.movImmediate .rdi vec, .call] ++ isrPops.map .pop

/-- The order of the pushes in `isr14`. -/
def pagefaultPushes : List Register :=
  [.rax, .rbx, .rsi, .rdi, .rbp, .r8, .r9, .r10, .r11, .r12, .r13, .r14, .r15]

def pagefaultPops : List Register :=
  [.r15, .r14, .r13, .r12, .r11, .r10, .r9, .r8, .rbp, .rdi, .rsi, .rbx, .rax]

/-- `isr14` up to its `iretq`. -/
def isr14 : List Instruction :=
  [.movCr2 .rcx, .pop .rdx, .loadTop .r14] ++ pagefaultPushes.map .push ++
    [.mov .rdi .rcx, .mov .rsi .rdx, .mov .rdx .r14, .movRsp .rcx, .call] ++
    pagefaultPops.map .pop

/-- The stubs through which an interruption can return. The one of vector 13
ends in a `hlt` loop, and the one of vector 0x80 is a system call. -/
inductive Stub where
  | makeIsr (vec : BitVec 8)
  | isr14
  deriving DecidableEq

/-- The table that `init` fills. -/
def stubOf (vector : BitVec 8) : Option Stub :=
  if vector = 13 then none
  else if vector = 14 then some .isr14
  else if vector = 0x80 then none
  else if vector < 48 then some (.makeIsr vector)
  else some (.makeIsr 0xFF)

/-- The exceptions for which the processor pushes an error code. -/
def pushesErrorCode (vector : BitVec 8) : Bool :=
  vector.toNat ∈ [8, 10, 11, 12, 13, 14, 17, 21, 29, 30]

/-- `common_dispatch`; `body` is what it does for the vectors that return. -/
def commonDispatch (body : Cpu → Cpu) (cpu : Cpu) : Option Cpu :=
  let vector := (cpu.regs .rdi).setWidth 8
  if vector = 1 ∨ vector = 3 then some (body cpu)
  else if vector ≤ (31 : BitVec 8) then none
  else some (body cpu)

/-- `pagefault_handler_x86`; `resolve` is its call of `handle_user_page_fault`, and
a task with a fault that it does not resolve exits. -/
def pagefaultHandlerX86 (resolve : Cpu → Option Cpu) (cpu : Cpu) : Option Cpu :=
  if cpu.regs .rsi &&& 4 = 0 then none else resolve cpu

/-- The registers that a function of the System V ABI preserves. -/
def calleeSaved : List Register := [.rbx, .rbp, .r12, .r13, .r14, .r15]

/-- A call returns with the callee-saved registers, with the stack pointer and
with the words of the stack above it. -/
structure SysV (top : Word) (call : Cpu → Option Cpu) : Prop where
  regs : ∀ before after, call before = some after → ∀ reg ∈ calleeSaved,
    after.regs reg = before.regs reg
  rsp : ∀ before after, call before = some after → after.rsp = before.rsp
  stack : ∀ before after, call before = some after →
    KeepsStack top before.rsp before.memory after.memory

theorem sysv_some (top : Word) : SysV top some where
  regs := by
    rintro before _ ⟨rfl⟩ reg _
    rfl
  rsp := by
    rintro before _ ⟨rfl⟩
    rfl
  stack := by
    rintro before _ ⟨rfl⟩ address _
    rfl

structure Interruption where
  vector : BitVec 8
  /-- Where the processor starts to push. -/
  top : Word
  errorCode : Word

/-- Entering through an interrupt gate: `TF`, `IF`, `NT`, `RF` and `VM` are
cleared. -/
def enter (interruption : Interruption) (cpu : Cpu) : Cpu :=
  let start : Cpu := { cpu with rsp := interruption.top }
  let framed := ((((start.pushWord cpu.ss).pushWord cpu.rsp).pushWord cpu.rflags).pushWord
    cpu.cs).pushWord cpu.rip
  let entered :=
    if pushesErrorCode interruption.vector then framed.pushWord interruption.errorCode else framed
  { entered with rflags := cpu.rflags &&& ~~~0x34300 }

structure Handlers where
  body : Cpu → Cpu
  resolve : Cpu → Option Cpu

def runStub (handlers : Handlers) : Stub → Cpu → Option Cpu
  | .makeIsr vec, cpu =>
      (executeAll (commonDispatch handlers.body) (makeIsr (vec.setWidth 32)) cpu).map iretq
  | .isr14, cpu => (executeAll (pagefaultHandlerX86 handlers.resolve) isr14 cpu).map iretq

structure Resumes (before after : Cpu) : Prop where
  regs : after.regs = before.regs
  rip : after.rip = before.rip
  rflags : after.rflags = before.rflags
  rsp : after.rsp = before.rsp

/-- Whatever the handlers do within the ABI, a return through the stub resumes
the interrupted code. -/
def Transparent (stub : Stub) (interruption : Interruption) (cpu : Cpu) : Prop :=
  ∀ handlers : Handlers,
    SysV interruption.top (fun cpu => some (handlers.body cpu)) →
    SysV interruption.top handlers.resolve →
    ∀ after, runStub handlers stub (enter interruption cpu) = some after → Resumes cpu after

section

variable {handler : Cpu → Option Cpu} {top : Word} {cpu : Cpu} {words : List Word}

theorem execute_all_append (first second : List Instruction) (cpu : Cpu) :
    executeAll handler (first ++ second) cpu =
      (executeAll handler first cpu).bind (executeAll handler second) := by
  induction first generalizing cpu with
  | nil => rfl
  | cons instruction rest ih =>
      rw [List.cons_append, executeAll, executeAll, Option.bind_assoc]
      exact Option.bind_congr fun next _ => ih next

theorem execute_pushes (sources : List Register)
    (stacked : Stacked top cpu.memory cpu.rsp words)
    (room : words.length + sources.length < 2 ^ 61) :
    ∃ after, executeAll handler (sources.map .push) cpu = some after ∧
      after.regs = cpu.regs ∧
      Stacked top after.memory after.rsp ((sources.map cpu.regs).reverse ++ words) := by
  induction sources generalizing cpu words with
  | nil => exact ⟨cpu, rfl, rfl, stacked⟩
  | cons source rest ih =>
      rw [List.length_cons] at room
      have pushed := stacked_push stacked (cpu.regs source) (by omega)
      obtain ⟨after, executed, regs, whole⟩ := @ih (cpu.pushWord (cpu.regs source))
        (cpu.regs source :: words) pushed (by rw [List.length_cons]; omega)
      refine ⟨after, executed, regs, ?_⟩
      rw [List.map_cons, List.reverse_cons, List.append_assoc]
      exact whole

theorem execute_pops {targets : List Register} (distinct : targets.Nodup)
    (values : Register → Word)
    (stacked : Stacked top cpu.memory cpu.rsp (targets.map values ++ words)) :
    ∃ after, executeAll handler (targets.map .pop) cpu = some after ∧
      (∀ reg ∈ targets, after.regs reg = values reg) ∧
      (∀ reg, reg ∉ targets → after.regs reg = cpu.regs reg) ∧
      Stacked top after.memory after.rsp words := by
  induction targets generalizing cpu with
  | nil => exact ⟨cpu, rfl, nofun, fun _ _ => rfl, stacked⟩
  | cons target rest ih =>
      obtain ⟨fresh, distinct⟩ := List.nodup_cons.mp distinct
      rw [List.map_cons, List.cons_append] at stacked
      obtain ⟨after, executed, popped, others, left⟩ := @ih (cpu.popTo target) distinct
        (stacked_pop stacked)
      have here : (cpu.popTo target).regs target = values target := by
        rw [← stacked_read stacked]
        exact Function.update_self target _ _
      refine ⟨after, executed, ?_, ?_, left⟩
      · intro reg member
        rcases List.mem_cons.mp member with rfl | later
        · rw [others reg fresh, here]
        · exact popped reg later
      · intro reg outside
        rw [List.mem_cons, not_or] at outside
        rw [others reg outside.2]
        exact Function.update_of_ne outside.1 _ _

def Instruction.isMove : Instruction → Bool
  | .mov _ _ => true
  | .movImmediate _ _ => true
  | .movRsp _ => true
  | _ => false

theorem execute_moves {moves : List Instruction} (onlyMoves : moves.all Instruction.isMove) :
    ∃ after, executeAll handler moves cpu = some after ∧
      after.rsp = cpu.rsp ∧ after.memory = cpu.memory := by
  induction moves generalizing cpu with
  | nil => exact ⟨cpu, rfl, rfl, rfl⟩
  | cons move rest ih =>
      rw [List.all_cons, Bool.and_eq_true] at onlyMoves
      cases move with
      | mov target source => exact @ih (cpu.set target (cpu.regs source)) onlyMoves.2
      | movImmediate target value => exact @ih (cpu.set target (value.setWidth 64)) onlyMoves.2
      | movRsp target => exact @ih (cpu.set target cpu.rsp) onlyMoves.2
      | push | pop | movCr2 | loadTop | call => cases onlyMoves.1

def savedCall (saved : List Register) (arguments : List Instruction) : List Instruction :=
  saved.map .push ++ (arguments ++ (.call :: saved.reverse.map .pop))

theorem execute_saved_call {saved : List Register} {arguments : List Instruction}
    (abi : SysV top handler) (distinct : saved.Nodup)
    (onlyMoves : arguments.all Instruction.isMove)
    (stacked : Stacked top cpu.memory cpu.rsp words)
    (room : words.length + saved.length < 2 ^ 61) :
    ∃ pushed called, pushed.regs = cpu.regs ∧
      executeAll handler arguments pushed = some called ∧
      (handler called = none → executeAll handler (savedCall saved arguments) cpu = none) ∧
      ∀ ended, handler called = some ended →
        ∃ after, executeAll handler (savedCall saved arguments) cpu = some after ∧
          (∀ reg ∈ saved, after.regs reg = cpu.regs reg) ∧
          (∀ reg, reg ∉ saved → after.regs reg = ended.regs reg) ∧
          Stacked top after.memory after.rsp words := by
  obtain ⟨pushed, pushes, regs, whole⟩ := @execute_pushes handler _ _ _ saved stacked room
  obtain ⟨called, moves, rsp, memory⟩ := @execute_moves handler pushed _ onlyMoves
  have executed : executeAll handler (savedCall saved arguments) cpu =
      (handler called).bind (executeAll handler (saved.reverse.map .pop)) := by
    rw [savedCall, execute_all_append, pushes, Option.bind_some, execute_all_append, moves]
    rfl
  refine ⟨pushed, called, regs, moves, ?_, ?_⟩
  · intro halts
    rw [executed, halts]
    rfl
  · intro ended ends
    rw [← rsp, ← memory] at whole
    have kept := stacked_keeps whole (abi.stack called ended ends)
    rw [← abi.rsp called ended ends, ← List.map_reverse] at kept
    obtain ⟨after, popped, values, others, left⟩ :=
      @execute_pops handler _ _ _ saved.reverse (List.nodup_reverse.mpr distinct) cpu.regs kept
    refine ⟨after, ?_, ?_, ?_, left⟩
    · rw [executed, ends]
      exact popped
    · exact fun reg member => values reg (List.mem_reverse.mpr member)
    · exact fun reg outside => others reg fun member => outside (List.mem_reverse.mp member)

end

/-- What `iretq` takes, from the stack pointer upwards. -/
def frame (cpu : Cpu) : List Word := [cpu.rip, cpu.cs, cpu.rflags, cpu.rsp, cpu.ss]

theorem enter_regs (interruption : Interruption) (cpu : Cpu) :
    (enter interruption cpu).regs = cpu.regs := by
  unfold enter
  split_ifs <;> rfl

theorem enter_stacked (interruption : Interruption) (cpu : Cpu) :
    Stacked interruption.top (enter interruption cpu).memory (enter interruption cpu).rsp
      (if pushesErrorCode interruption.vector then interruption.errorCode :: frame cpu
        else frame cpu) := by
  have framed := stacked_push (stacked_push (stacked_push (stacked_push (stacked_push
    (stacked_nil cpu.memory interruption.top) cpu.ss (by simp)) cpu.rsp (by simp)) cpu.rflags
    (by simp)) cpu.cs (by simp)) cpu.rip (by simp)
  unfold enter
  dsimp only
  split_ifs with coded
  · exact stacked_push framed interruption.errorCode (by simp)
  · exact framed

/-- A stub resumes the interrupted code if the frame is on top of the stack again
and the registers have their values. -/
theorem iretq_resumes {top : Word} {before cpu : Cpu}
    (stacked : Stacked top cpu.memory cpu.rsp (frame before)) (regs : cpu.regs = before.regs) :
    Resumes before (iretq cpu) where
  regs := regs
  rip := stacked_read stacked
  rflags := stacked_read (stacked_pop (stacked_pop stacked))
  rsp := stacked_read (stacked_pop (stacked_pop (stacked_pop stacked)))

theorem make_isr_saves (vec : BitVec 32) :
    makeIsr vec = savedCall isrPushes [.movImmediate .rdi vec] := rfl

theorem isr14_saves :
    isr14 = [.movCr2 .rcx, .pop .rdx, .loadTop .r14] ++ savedCall pagefaultPushes
      [.mov .rdi .rcx, .mov .rsi .rdx, .mov .rdx .r14, .movRsp .rcx] := rfl

theorem isr_pushes_all (reg : Register) : reg ∈ isrPushes := by
  cases reg <;> decide

/-- The vectors for which `common_dispatch` returns push no error code. -/
theorem no_error_code {vector vec : BitVec 8} (stub : stubOf vector = some (.makeIsr vec))
    (returns : vec = 1 ∨ vec = 3 ∨ ¬vec ≤ (31 : BitVec 8)) : pushesErrorCode vector = false := by
  by_contra coded
  rw [Bool.not_eq_false] at coded
  have low : vector.toNat ≤ 31 ∧ vector.toNat ≠ 1 ∧ vector.toNat ≠ 3 := by
    simp only [pushesErrorCode, List.mem_cons, List.not_mem_nil, or_false,
      decide_eq_true_eq] at coded
    omega
  unfold stubOf at stub
  split_ifs at stub with gp pf syscall table
  · cases stub
  · cases stub
    bv_omega
  · cases stub
    bv_omega

theorem common_dispatch_sysv {top : Word} {body : Cpu → Cpu}
    (abi : SysV top fun cpu => some (body cpu)) : SysV top (commonDispatch body) := by
  have reached (before after : Cpu) (returned : commonDispatch body before = some after) :
      some (body before) = some after := by
    unfold commonDispatch at returned
    dsimp only at returned
    split_ifs at returned
    · exact returned
    · exact returned
  exact ⟨fun before after returned => abi.regs before after (reached before after returned),
    fun before after returned => abi.rsp before after (reached before after returned),
    fun before after returned => abi.stack before after (reached before after returned)⟩

theorem make_isr_transparent {interruption : Interruption} {vec : BitVec 8}
    (stub : stubOf interruption.vector = some (.makeIsr vec)) (cpu : Cpu) :
    Transparent (.makeIsr vec) interruption cpu := by
  intro handlers body _ after returned
  obtain ⟨last, executed, rfl⟩ := Option.map_eq_some_iff.mp returned
  rw [make_isr_saves] at executed
  have room : (if pushesErrorCode interruption.vector then interruption.errorCode :: frame cpu
      else frame cpu).length + isrPushes.length < 2 ^ 61 := by
    split_ifs <;> simp [frame, isrPushes]
  obtain ⟨pushed, called, _, moved, halts, ends⟩ :=
    @execute_saved_call _ _ _ _ _ [.movImmediate .rdi (vec.setWidth 32)]
      (common_dispatch_sysv body) (by decide : isrPushes.Nodup) rfl
      (enter_stacked interruption cpu) room
  have vector : (called.regs .rdi).setWidth 8 = vec := by
    cases moved
    simp [Cpu.set]
  cases dispatched : commonDispatch handlers.body called with
  | none =>
      rw [halts dispatched] at executed
      cases executed
  | some ended =>
      have returns : vec = 1 ∨ vec = 3 ∨ ¬vec ≤ (31 : BitVec 8) := by
        unfold commonDispatch at dispatched
        rw [vector] at dispatched
        dsimp only at dispatched
        split_ifs at dispatched with ignored high
        · exact ignored.imp_right .inl
        · exact .inr (.inr high)
      obtain ⟨final, finished, saved, _, left⟩ := ends ended dispatched
      obtain rfl : final = last := Option.some.inj (finished.symm.trans executed)
      rw [no_error_code stub returns] at left
      apply iretq_resumes left
      funext reg
      rw [saved reg (isr_pushes_all reg), enter_regs]

/-- The processor when `isr14` begins to push. -/
def loaded (cpu : Cpu) : Cpu :=
  let popped := (cpu.set .rcx cpu.cr2).popTo .rdx
  popped.set .r14 (popped.memory popped.rsp)

theorem execute_isr14 (handler : Cpu → Option Cpu) (cpu : Cpu) :
    executeAll handler isr14 cpu = executeAll handler (savedCall pagefaultPushes
      [.mov .rdi .rcx, .mov .rsi .rdx, .mov .rdx .r14, .movRsp .rcx]) (loaded cpu) := by
  have first : executeAll handler [.movCr2 .rcx, .pop .rdx, .loadTop .r14] cpu =
      some (loaded cpu) := rfl
  rw [isr14_saves, execute_all_append, first, Option.bind_some]

theorem pagefault_handler_sysv {top : Word} {resolve : Cpu → Option Cpu}
    (abi : SysV top resolve) : SysV top (pagefaultHandlerX86 resolve) := by
  have reached (before after : Cpu) (returned : pagefaultHandlerX86 resolve before = some after) :
      resolve before = some after := by
    unfold pagefaultHandlerX86 at returned
    split_ifs at returned
    exact returned
  exact ⟨fun before after returned => abi.regs before after (reached before after returned),
    fun before after returned => abi.rsp before after (reached before after returned),
    fun before after returned => abi.stack before after (reached before after returned)⟩

/-- What `isr14` loads from the stack of a page fault. -/
theorem loaded_words {interruption : Interruption} (fault : interruption.vector = 14)
    (cpu : Cpu) :
    Stacked interruption.top (loaded (enter interruption cpu)).memory
        (loaded (enter interruption cpu)).rsp (frame cpu) ∧
      (loaded (enter interruption cpu)).regs .rdx = interruption.errorCode ∧
      (loaded (enter interruption cpu)).regs .r14 = cpu.rip ∧
      ∀ reg, reg ∉ [.rcx, .rdx, .r14] →
        (loaded (enter interruption cpu)).regs reg = cpu.regs reg := by
  have entered := enter_stacked interruption cpu
  rw [fault, if_pos (by decide)] at entered
  refine ⟨stacked_pop entered, ?_, ?_, ?_⟩
  · rw [← stacked_read entered]
    rfl
  · rw [← show _ = cpu.rip from stacked_read (stacked_pop entered)]
    rfl
  · intro reg other
    simp only [List.mem_cons, List.not_mem_nil, or_false, not_or] at other
    obtain ⟨notRcx, notRdx, notR14⟩ := other
    rw [← enter_regs interruption cpu]
    simp [loaded, Cpu.set, Cpu.popTo, Cpu.popWord, notRcx, notRdx, notR14]

/-- What a return through `isr14` brings back: the call's `rcx` and `rdx`, the
interrupted `rip` in `r14`, and the rest. -/
theorem page_fault_returns {interruption : Interruption} (fault : interruption.vector = 14)
    {handlers : Handlers} (abi : SysV interruption.top handlers.resolve) (cpu : Cpu) :
    ∃ called,
      (interruption.errorCode &&& 4 = 0 →
        runStub handlers .isr14 (enter interruption cpu) = none) ∧
      ∀ ended, interruption.errorCode &&& 4 ≠ 0 → handlers.resolve called = some ended →
        ∃ after, runStub handlers .isr14 (enter interruption cpu) = some after ∧
          after.regs .rcx = ended.regs .rcx ∧ after.regs .rdx = ended.regs .rdx ∧
          after.regs .r14 = cpu.rip ∧
          (∀ reg, reg ∉ [.rcx, .rdx, .r14] → after.regs reg = cpu.regs reg) ∧
          after.rip = cpu.rip ∧ after.rflags = cpu.rflags ∧ after.rsp = cpu.rsp := by
  obtain ⟨stacked, code, rip, others⟩ := loaded_words fault cpu
  have room : (frame cpu).length + pagefaultPushes.length < 2 ^ 61 := by
    simp [frame, pagefaultPushes]
  obtain ⟨pushed, called, regs, moved, halts, ends⟩ :=
    @execute_saved_call _ _ _ _ _
      [.mov .rdi .rcx, .mov .rsi .rdx, .mov .rdx .r14, .movRsp .rcx]
      (pagefault_handler_sysv abi) (by decide : pagefaultPushes.Nodup) rfl stacked room
  have runs : runStub handlers .isr14 (enter interruption cpu) =
      (executeAll (pagefaultHandlerX86 handlers.resolve) (savedCall pagefaultPushes
        [.mov .rdi .rcx, .mov .rsi .rdx, .mov .rdx .r14, .movRsp .rcx])
          (loaded (enter interruption cpu))).map iretq := by
    rw [runStub, execute_isr14]
  have argument : called.regs .rsi = interruption.errorCode := by
    rw [← code, ← regs]
    cases moved
    simp [Cpu.set]
  refine ⟨called, ?_, ?_⟩
  · intro fromKernel
    rw [runs, halts (by rw [pagefaultHandlerX86, argument, if_pos fromKernel])]
    rfl
  · intro ended fromUser resolved
    obtain ⟨last, executed, saved, clobbered, left⟩ := ends ended
      (by rw [pagefaultHandlerX86, argument, if_neg fromUser, resolved])
    refine ⟨iretq last, ?_, clobbered .rcx (by decide), clobbered .rdx (by decide), ?_, ?_,
      stacked_read left, stacked_read (stacked_pop (stacked_pop left)),
      stacked_read (stacked_pop (stacked_pop (stacked_pop left)))⟩
    · rw [runs, executed]
      rfl
    · rw [← rip]
      exact saved .r14 (by decide)
    · intro reg other
      rw [← others reg other]
      apply saved
      revert other
      cases reg <;> decide

/-- A stub resumes the interrupted code for every handler, unless it is the one of
a page fault of user code. -/
theorem transparent_iff (stub : Stub) (interruption : Interruption) (cpu : Cpu)
    (installed : stubOf interruption.vector = some stub) :
    Transparent stub interruption cpu ↔
      interruption.vector ≠ 14 ∨ interruption.errorCode &&& 4 = 0 := by
  cases stub with
  | makeIsr vec =>
      have other : interruption.vector ≠ 14 := by
        intro same
        rw [same] at installed
        cases installed
      exact ⟨fun _ => .inl other, fun _ => make_isr_transparent installed cpu⟩
  | isr14 =>
      have fault : interruption.vector = 14 := by
        unfold stubOf at installed
        split_ifs at installed with _ fault
        · exact fault
        · cases installed
        · cases installed
      constructor
      · intro transparent
        right
        by_contra fromUser
        -- the handler may return with another value in `rcx`
        let handlers : Handlers :=
          { body := id, resolve := fun called => some (called.set .rcx (cpu.regs .rcx + 1)) }
        have abi : SysV interruption.top handlers.resolve := by
          constructor
          · rintro before _ ⟨rfl⟩ reg member
            apply Function.update_of_ne
            rintro rfl
            revert member
            decide
          · rintro before _ ⟨rfl⟩
            rfl
          · rintro before _ ⟨rfl⟩ address _
            rfl
        have body : SysV interruption.top fun cpu => some (handlers.body cpu) :=
          sysv_some interruption.top
        obtain ⟨called, _, returns⟩ := page_fault_returns fault abi cpu
        obtain ⟨after, returned, rcx, _⟩ := returns _ fromUser rfl
        have same := congrFun (transparent handlers body abi after returned).regs .rcx
        rw [rcx] at same
        unfold Cpu.set at same
        dsimp only at same
        rw [Function.update_self] at same
        bv_omega
      · rintro (other | fromKernel)
        · exact absurd fault other
        · intro handlers _ abi after returned
          obtain ⟨_, halts, _⟩ := page_fault_returns fault abi cpu
          rw [halts fromKernel] at returned
          cases returned

def interrupted : Cpu where
  regs := fun _ => 7
  rsp := 0x7FFFFFF000
  rip := 0x400000
  rflags := 0x202
  cs := 0x23
  ss := 0x1B
  cr2 := 0x500000
  memory := fun _ => 0

def idle : Handlers where
  body := id
  resolve := some

def timerTick : Interruption where
  vector := 32
  top := 0x200000
  errorCode := 0

def userWrite : Interruption where
  vector := 14
  top := 0x200000
  errorCode := 6

theorem timer_tick_transparent :
    Transparent (.makeIsr 32) timerTick interrupted ∧
      (runStub idle (.makeIsr 32) (enter timerTick interrupted)).isSome = true :=
  ⟨(transparent_iff (.makeIsr 32) timerTick interrupted (by decide)).mpr (.inl (by decide)),
    by decide +kernel⟩

/-- Even a handler that changes nothing returns with the interrupted `rip` in
`r14`. -/
theorem user_write_clobbers_r14 :
    stubOf userWrite.vector = some .isr14 ∧ ¬Transparent .isr14 userWrite interrupted := by
  refine ⟨by decide, ?_⟩
  intro transparent
  have abi := sysv_some userWrite.top
  obtain ⟨called, _, returns⟩ := @page_fault_returns userWrite (by decide) idle abi interrupted
  obtain ⟨after, returned, _, _, r14, _⟩ := returns called (by decide) rfl
  have same := congrFun (transparent idle abi abi after returned).regs .r14
  rw [r14] at same
  revert same
  decide

end Ferrugem.InterruptStubs
