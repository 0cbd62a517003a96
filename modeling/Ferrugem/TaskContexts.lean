import Ferrugem.ContextSwitches
import Ferrugem.Library.EventSystem
import Ferrugem.SchedulerModel

/-!
# Tasks keep their contexts

Any number of tasks on one processor, each with a kernel stack of its own, which
`schedule` puts aside and resumes with `context_switch`. What runs between two
switches is arbitrary code that stays out of the stacks of the other tasks and
out of the `kernel_sp` fields. A task switches to another live task and has room on
its stack for the frame of `context_switch`; no task is placed in the running slot,
whose stack is in use, and the running slot is not cleared; a new stack has its own
pages. The invariant is that every task that is not running is asleep: its image lies
on its stack where its `kernel_sp` points, and above it the stack is as the task left
it.
-/

namespace Ferrugem.TaskContexts

open WordStack RegisterPrograms
open Ferrugem.ContextSwitches Ferrugem.SchedulerModel

set_option autoImplicit false

/-- A kernel stack, from its lowest address up to the address after it. -/
structure Stack where
  bottom : Nat
  top : Nat

def Stack.Holds (stack : Stack) (address : Word) : Prop :=
  stack.bottom ≤ address.toNat ∧ address.toNat < stack.top

def Stack.Apart (first second : Stack) : Prop :=
  first.top ≤ second.bottom ∨ second.top ≤ first.bottom

def stackSize : Nat := 8 * 4096

def guardCanary : Word := 0xDEADC0DEDEADC0DE

/-- The addresses of the `kernel_sp` fields of `TASKS` and of the trampoline. -/
structure Statics where
  kernelSp : Slot → Word
  distinct : Function.Injective kernelSp
  trampolines : Trampolines

/-- A task that is not running: where it goes on, and the memory it left. -/
structure Waiting (Register : Type) where
  context : Context Register
  memory : Memory

structure Tasks (Register : Type) where
  cpu : Cpu Register
  current : Slot
  kernelStacks : Slot → Option Stack
  waiting : Slot → Option (Waiting Register)
  halted : Bool

inductive Action (Register : Type) where
  /-- What the running task did until its next call. -/
  | compute (after : Cpu Register)
  /-- `schedule()` with its choice, called from the given return address. -/
  | schedule (next : Slot) (returnAddress : Word)
  /-- A spawn function that fills a slot. -/
  | spawn (slot : Slot) (stack : Stack) (start : Start)
  /-- `waitpid` clears a slot. -/
  | release (slot : Slot)

/-- A task as `context_switch` returns into it. -/
structure Resumed (Register : Type) where
  stack : Option Stack
  waiting : Waiting Register
  cpu : Cpu Register

section

variable {Register : Type} [DecidableEq Register]

namespace Tasks

/-- What `check_canary` tests of a task that was given a guard page. -/
def canaryKept (tasks : Tasks Register) : Bool :=
  tasks.current == idleSlot || (tasks.kernelStacks tasks.current).all fun stack =>
    tasks.cpu.memory (BitVec.ofNat 64 stack.bottom) == guardCanary

def sleeper (code : SwitchCode Register) (tasks : Tasks Register) (returnAddress : Word) :
    Waiting Register :=
  ⟨⟨tasks.cpu.regs, tasks.cpu.regs code.sp, returnAddress⟩, tasks.cpu.memory⟩

/-- `check_canary` and `context_switch` of a `schedule()` that has chosen another slot. -/
def schedule (code : SwitchCode Register) (statics : Statics) (tasks : Tasks Register)
    (next : Slot) (returnAddress : Word) : Tasks Register × Option (Resumed Register) :=
  if tasks.canaryKept then
    let switched := code.contextSwitch (statics.kernelSp tasks.current)
      (tasks.cpu.memory (statics.kernelSp next)) returnAddress tasks.cpu
    ({ tasks with
        cpu := switched
        current := next
        waiting := Function.update tasks.waiting tasks.current
          (some (tasks.sleeper code returnAddress)) },
      (tasks.waiting next).map fun waiting => ⟨tasks.kernelStacks next, waiting, switched⟩)
  else ({ tasks with halted := true }, none)

/-- The memory after the canary, the image and `kernel_sp` of a new task are written. -/
def initialised (statics : Statics) (memory : Memory) (slot : Slot) (stack : Stack)
    (initial : InitialStack) : Memory :=
  Function.update
    (writeWords (Function.update memory (BitVec.ofNat 64 stack.bottom) guardCanary)
      initial.kernelSp initial.written)
    (statics.kernelSp slot) initial.kernelSp

def spawn (code : SwitchCode Register) (statics : Statics) (tasks : Tasks Register)
    (slot : Slot) (stack : Stack) (start : Start) : Tasks Register :=
  match code.taskInit statics.trampolines (BitVec.ofNat 64 stack.top) start with
  | none => { tasks with halted := true }
  | some initial =>
      let memory := initialised statics tasks.cpu.memory slot stack initial
      { tasks with
        cpu := { tasks.cpu with memory := memory }
        kernelStacks := Function.update tasks.kernelStacks slot (some stack)
        waiting := Function.update tasks.waiting slot (some
          ⟨code.startContext statics.trampolines (BitVec.ofNat 64 stack.top) start,
            memory⟩) }

def step (code : SwitchCode Register) (statics : Statics) (tasks : Tasks Register)
    (action : Action Register) : Tasks Register × Option (Resumed Register) :=
  if tasks.halted then (tasks, none) else
    match action with
    | .compute after => ({ tasks with cpu := after }, none)
    | .schedule next returnAddress => tasks.schedule code statics next returnAddress
    | .spawn slot stack start => (tasks.spawn code statics slot stack start, none)
    | .release slot =>
        ({ tasks with kernelStacks := Function.update tasks.kernelStacks slot none }, none)

/-- Code that leaves the other stacks and the scheduler's fields alone. -/
def ComputesApart (statics : Statics) (tasks : Tasks Register) (after : Cpu Register) : Prop :=
  (∀ slot stack, slot ≠ tasks.current → tasks.kernelStacks slot = some stack →
    ∀ address, stack.Holds address → after.memory address = tasks.cpu.memory address) ∧
    ∀ slot, after.memory (statics.kernelSp slot) = tasks.cpu.memory (statics.kernelSp slot)

/-- Another live task, and a stack with room for the frame of `context_switch`. -/
def MaySwitch (code : SwitchCode Register) (tasks : Tasks Register) (next : Slot) : Prop :=
  next ≠ tasks.current ∧ (tasks.kernelStacks next).isSome ∧
    ∃ stack, tasks.kernelStacks tasks.current = some stack ∧
      stack.bottom + 8 * code.frame.length ≤ (tasks.cpu.regs code.sp).toNat ∧
      (tasks.cpu.regs code.sp).toNat ≤ stack.top

/-- A stack as `alloc_pages` gives it: pages of its own, apart from the kernel's statics. -/
def MaySpawn (statics : Statics) (tasks : Tasks Register) (slot : Slot) (stack : Stack) : Prop :=
  slot ≠ tasks.current ∧ stack.bottom % 4096 = 0 ∧ stack.top = stack.bottom + stackSize ∧
    stack.top < 2 ^ 64 ∧
    (∀ other held, other ≠ slot → tasks.kernelStacks other = some held → stack.Apart held) ∧
    ∀ other, ¬stack.Holds (statics.kernelSp other)

def Allowed (code : SwitchCode Register) (statics : Statics) (tasks : Tasks Register) :
    Action Register → Prop
  | .compute after => tasks.ComputesApart statics after
  | .schedule next _ => tasks.MaySwitch code next
  | .spawn slot stack _ => tasks.MaySpawn statics slot stack
  | .release slot => slot ≠ tasks.current

end Tasks

def bootTasks (cpu : Cpu Register) (stack : Stack) : Tasks Register where
  cpu := cpu
  current := idleSlot
  kernelStacks := fun slot => if slot = idleSlot then some stack else none
  waiting := fun _ => none
  halted := false

def taskSystem (code : SwitchCode Register) (statics : Statics) (cpu : Cpu Register)
    (stack : Stack) : EventSystem (Tasks Register) (Action Register) (Resumed Register) where
  init := bootTasks cpu stack
  step := Tasks.step code statics

/-- The task goes on in its context, with what it had on its stack. -/
def Resumed.Faithful (code : SwitchCode Register) (resumed : Resumed Register) : Prop :=
  code.GoesOn resumed.waiting.context resumed.cpu ∧
    ∀ stack, resumed.stack = some stack → ∀ address : Word,
      resumed.waiting.context.sp.toNat ≤ address.toNat → address.toNat < stack.top →
        resumed.cpu.memory address = resumed.waiting.memory address

structure Asleep (code : SwitchCode Register) (memory : Memory) (stack : Stack) (kernelSp : Word)
    (waiting : Waiting Register) : Prop where
  image : Stacked waiting.context.sp memory kernelSp (code.image waiting.context)
  bottom : stack.bottom ≤ kernelSp.toNat
  pointer : kernelSp.toNat + 8 * code.frame.length = waiting.context.sp.toNat
  top : waiting.context.sp.toNat ≤ stack.top
  above : ∀ address : Word, waiting.context.sp.toNat ≤ address.toNat →
    address.toNat < stack.top → memory address = waiting.memory address

structure Kept (code : SwitchCode Register) (statics : Statics) (tasks : Tasks Register) :
    Prop where
  apart : ∀ first second firstStack secondStack, first ≠ second →
    tasks.kernelStacks first = some firstStack → tasks.kernelStacks second = some secondStack →
    firstStack.Apart secondStack
  fields : ∀ slot stack other, tasks.kernelStacks slot = some stack →
    ¬stack.Holds (statics.kernelSp other)
  asleep : ∀ slot stack, slot ≠ tasks.current → tasks.kernelStacks slot = some stack →
    ∃ waiting, tasks.waiting slot = some waiting ∧
      Asleep code tasks.cpu.memory stack (tasks.cpu.memory (statics.kernelSp slot)) waiting

variable {code : SwitchCode Register} {statics : Statics} {tasks : Tasks Register}

omit [DecidableEq Register] in
theorem image_length (code : SwitchCode Register) (context : Context Register) :
    (code.image context).length = code.frame.length := List.length_map _

omit [DecidableEq Register] in
theorem Asleep.kept {memory after : Memory} {stack : Stack} {kernelSp : Word}
    {waiting : Waiting Register} (asleep : Asleep code memory stack kernelSp waiting)
    (same : ∀ address, stack.Holds address → after address = memory address) :
    Asleep code after stack kernelSp waiting where
  image := by
    apply stacked_keeps asleep.image
    intro address inside
    apply same
    have bottom := asleep.bottom
    have pointer := asleep.pointer
    have top := asleep.top
    constructor
    · bv_omega
    · bv_omega
  bottom := asleep.bottom
  pointer := asleep.pointer
  top := asleep.top
  above := by
    intro address low high
    rw [← asleep.above address low high]
    have bottom := asleep.bottom
    have pointer := asleep.pointer
    exact same address ⟨by omega, high⟩

theorem Stack.Apart.symm {first second : Stack} (apart : first.Apart second) :
    second.Apart first := Or.symm apart

theorem Stack.Apart.not_holds {first second : Stack} (apart : first.Apart second) {address : Word}
    (held : first.Holds address) : ¬second.Holds address := by
  intro other
  cases apart with
  | inl below => exact absurd held.2 (by have := other.1; omega)
  | inr below => exact absurd held.1 (by have := other.2; omega)

section Switching

variable {next : Slot} {returnAddress : Word} {stack : Stack}

theorem saved_outside (lawful : code.Lawful)
    (room : stack.bottom + 8 * code.frame.length ≤ (tasks.cpu.regs code.sp).toNat)
    (inside : (tasks.cpu.regs code.sp).toNat ≤ stack.top) (curSp nextSp : Word) {address : Word}
    (outside : ¬stack.Holds address ∨ (tasks.cpu.regs code.sp).toNat ≤ address.toNat) :
    (code.suspended curSp nextSp returnAddress tasks.cpu).memory address =
      tasks.cpu.memory address := by
  obtain ⟨pointer, -, -, -, unchanged⟩ :=
    lawful.suspends curSp nextSp returnAddress tasks.cpu
  apply unchanged
  intro i bound same
  rw [pointer] at same
  unfold words at same
  have place : address.toNat =
      (tasks.cpu.regs code.sp).toNat - 8 * code.frame.length + 8 * i := by bv_omega
  cases outside with
  | inl away => exact away ⟨by omega, by omega⟩
  | inr above => omega

def switchedMemory (code : SwitchCode Register) (statics : Statics) (tasks : Tasks Register)
    (next : Slot) (returnAddress : Word) : Memory :=
  Function.update
    (code.suspended (statics.kernelSp tasks.current) (tasks.cpu.memory (statics.kernelSp next))
      returnAddress tasks.cpu).memory
    (statics.kernelSp tasks.current) (tasks.cpu.regs code.sp - words code.frame.length)

theorem switched_elsewhere (lawful : code.Lawful)
    (room : stack.bottom + 8 * code.frame.length ≤ (tasks.cpu.regs code.sp).toNat)
    (inside : (tasks.cpu.regs code.sp).toNat ≤ stack.top) {address : Word}
    (notField : address ≠ statics.kernelSp tasks.current)
    (outside : ¬stack.Holds address ∨ (tasks.cpu.regs code.sp).toNat ≤ address.toNat) :
    switchedMemory code statics tasks next returnAddress address = tasks.cpu.memory address := by
  rw [switchedMemory, Function.update_of_ne notField]
  exact saved_outside lawful room inside _ _ outside

theorem outgoing_asleep (lawful : code.Lawful) (kept : Kept code statics tasks)
    (own : tasks.kernelStacks tasks.current = some stack)
    (room : stack.bottom + 8 * code.frame.length ≤ (tasks.cpu.regs code.sp).toNat)
    (inside : (tasks.cpu.regs code.sp).toNat ≤ stack.top) :
    Asleep code (switchedMemory code statics tasks next returnAddress) stack
      (switchedMemory code statics tasks next returnAddress (statics.kernelSp tasks.current))
      (tasks.sleeper code returnAddress) := by
  have field : switchedMemory code statics tasks next returnAddress
      (statics.kernelSp tasks.current) =
        tasks.cpu.regs code.sp - words code.frame.length := Function.update_self _ _ _
  have clear := kept.fields tasks.current stack tasks.current own
  obtain ⟨pointer, -, -, image, -⟩ := lawful.suspends (statics.kernelSp tasks.current)
    (tasks.cpu.memory (statics.kernelSp next)) returnAddress tasks.cpu
  have low : (tasks.cpu.regs code.sp - words code.frame.length).toNat =
      (tasks.cpu.regs code.sp).toNat - 8 * code.frame.length := by
    unfold words
    bv_omega
  rw [field]
  rw [pointer] at image
  constructor
  · apply stacked_keeps image
    intro address between
    apply Function.update_of_ne
    intro same
    rw [same] at between
    exact clear ⟨by bv_omega, by bv_omega⟩
  · omega
  · show _ + _ = (tasks.cpu.regs code.sp).toNat
    omega
  · exact inside
  · intro address above below
    have notField : address ≠ statics.kernelSp tasks.current := by
      intro same
      rw [same] at above below
      have start : (tasks.cpu.regs code.sp).toNat ≤ (statics.kernelSp tasks.current).toNat := above
      exact clear ⟨by omega, below⟩
    exact switched_elsewhere lawful room inside notField (.inr above)

variable (next returnAddress) in
theorem others_asleep (lawful : code.Lawful) (kept : Kept code statics tasks)
    (own : tasks.kernelStacks tasks.current = some stack)
    (room : stack.bottom + 8 * code.frame.length ≤ (tasks.cpu.regs code.sp).toNat)
    (inside : (tasks.cpu.regs code.sp).toNat ≤ stack.top) {slot : Slot} {other : Stack}
    (differs : slot ≠ tasks.current) (live : tasks.kernelStacks slot = some other) :
    switchedMemory code statics tasks next returnAddress (statics.kernelSp slot) =
        tasks.cpu.memory (statics.kernelSp slot) ∧
      ∃ waiting, tasks.waiting slot = some waiting ∧
        Asleep code (switchedMemory code statics tasks next returnAddress) other
          (tasks.cpu.memory (statics.kernelSp slot)) waiting := by
  have field : switchedMemory code statics tasks next returnAddress (statics.kernelSp slot) =
      tasks.cpu.memory (statics.kernelSp slot) :=
    switched_elsewhere lawful room inside (statics.distinct.ne differs)
      (.inl (kept.fields tasks.current stack slot own))
  obtain ⟨waiting, waits, asleep⟩ := kept.asleep slot other differs live
  refine ⟨field, waiting, waits, asleep.kept ?_⟩
  intro address held
  have notField : address ≠ statics.kernelSp tasks.current := by
    intro same
    exact kept.fields slot other tasks.current live (same ▸ held)
  have away := (kept.apart slot tasks.current other stack differs live own).not_holds held
  exact switched_elsewhere lawful room inside notField (.inl away)

theorem schedule_step (lawful : code.Lawful) (kept : Kept code statics tasks)
    (may : tasks.MaySwitch code next) :
    Kept code statics (tasks.schedule code statics next returnAddress).1 ∧
      ∀ resumed, (tasks.schedule code statics next returnAddress).2 = some resumed →
        resumed.Faithful code := by
  by_cases intact : tasks.canaryKept = true
  · obtain ⟨notSelf, live, stack, own, room, inside⟩ := may
    obtain ⟨target, holds⟩ := Option.isSome_iff_exists.mp live
    obtain ⟨field, waiting, waits, asleep⟩ := others_asleep next returnAddress lawful
      kept own room inside notSelf holds
    obtain ⟨goesOn, memory⟩ := lawful.switches
      (Eq.refl (switchedMemory code statics tasks next returnAddress)) asleep.image
    rw [Tasks.schedule, if_pos intact]
    refine ⟨⟨kept.apart, kept.fields, ?_⟩, ?_⟩
    · intro slot other differs present
      show ∃ later, Function.update tasks.waiting tasks.current _ slot = some later ∧
        Asleep code (code.contextSwitch _ _ returnAddress tasks.cpu).memory other
          ((code.contextSwitch _ _ returnAddress tasks.cpu).memory (statics.kernelSp slot)) later
      rw [memory]
      by_cases left : slot = tasks.current
      · subst left
        have same : other = stack := Option.some.inj (present.symm.trans own)
        subst same
        exact ⟨_, Function.update_self _ _ _, outgoing_asleep lawful kept own room inside⟩
      · obtain ⟨kernelSp, sleeper, sleeps, still⟩ :=
          others_asleep _ _ lawful kept own room inside left present
        refine ⟨sleeper, ?_, ?_⟩
        · rw [Function.update_of_ne left]
          exact sleeps
        · rw [kernelSp]
          exact still
    · intro resumed emitted
      rw [waits] at emitted
      cases emitted
      refine ⟨goesOn, ?_⟩
      intro other present address low high
      have same : other = target := Option.some.inj (present.symm.trans holds)
      subst same
      show (code.contextSwitch _ _ returnAddress tasks.cpu).memory address = _
      rw [memory]
      exact asleep.above address low high
  · rw [Tasks.schedule, if_neg intact]
    exact ⟨⟨kept.apart, kept.fields, kept.asleep⟩, nofun⟩

end Switching

omit [DecidableEq Register] in
theorem compute_kept (kept : Kept code statics tasks) {after : Cpu Register}
    (computes : tasks.ComputesApart statics after) :
    Kept code statics { tasks with cpu := after } where
  apart := kept.apart
  fields := kept.fields
  asleep := by
    intro slot stack differs live
    obtain ⟨waiting, waits, asleep⟩ := kept.asleep slot stack differs live
    refine ⟨waiting, waits, ?_⟩
    show Asleep code after.memory stack (after.memory (statics.kernelSp slot)) waiting
    rw [computes.2 slot]
    exact asleep.kept (computes.1 slot stack differs live)

omit [DecidableEq Register] in
theorem release_kept (kept : Kept code statics tasks) (slot : Slot) :
    Kept code statics
      { tasks with kernelStacks := Function.update tasks.kernelStacks slot none } := by
  have remains : ∀ other stack, Function.update tasks.kernelStacks slot none other = some stack →
      tasks.kernelStacks other = some stack := by
    intro other stack live
    by_cases same : other = slot
    · rw [same, Function.update_self] at live
      exact nomatch live
    · rwa [Function.update_of_ne same] at live
  constructor
  · intro first second firstStack secondStack differs firstLive secondLive
    exact kept.apart first second firstStack secondStack differs (remains _ _ firstLive)
      (remains _ _ secondLive)
  · intro other stack field live
    exact kept.fields other stack field (remains _ _ live)
  · intro other stack differs live
    exact kept.asleep other stack differs (remains _ _ live)

theorem align_top {top : Nat} (multiple : top % 16 = 0) :
    alignTop (BitVec.ofNat 64 top) = BitVec.ofNat 64 top := by
  apply BitVec.eq_of_getLsbD_eq
  intro i bound
  have mask : (0xF#64).getLsbD i = decide (i < 4) := by
    show Nat.testBit (2 ^ 4 - 1) i = decide (i < 4)
    exact Nat.testBit_two_pow_sub_one 4 i
  have value : top = 2 ^ 4 * (top / 16) := by omega
  have bit : (BitVec.ofNat 64 top).getLsbD i =
      (decide (i < 64) && (decide (4 ≤ i) && (top / 16).testBit (i - 4))) := by
    rw [BitVec.getLsbD_ofNat]
    nth_rewrite 1 [value]
    rw [Nat.testBit_two_pow_mul]
  show (BitVec.ofNat 64 top &&& ~~~0xF#64).getLsbD i = _
  rw [BitVec.getLsbD_and, BitVec.getLsbD_not, mask, bit]
  by_cases low : i < 4
  · simp [low]
  · simp [low, bound]

section Spawning

variable {slot : Slot} {stack : Stack} {start : Start} {initial : InitialStack}

theorem initial_place (lawful : code.Lawful) (may : tasks.MaySpawn statics slot stack)
    (built : code.taskInit statics.trampolines (BitVec.ofNat 64 stack.top) start =
      some initial) :
    initial.kernelSp.toNat + 8 * initial.written.length = stack.top ∧
      initial.written.length ≤ 24 := by
  obtain ⟨-, aligned, size, fits, -, -⟩ := may
  obtain ⟨-, -, pointer, short⟩ := lawful.starts _ _ start initial built
  unfold stackSize at size
  rw [align_top (by omega)] at pointer
  refine ⟨?_, short⟩
  rw [pointer]
  unfold words
  have top : (BitVec.ofNat 64 stack.top).toNat = stack.top := by
    rw [BitVec.toNat_ofNat, Nat.mod_eq_of_lt fits]
  bv_omega

theorem initialised_elsewhere (lawful : code.Lawful) (may : tasks.MaySpawn statics slot stack)
    (built : code.taskInit statics.trampolines (BitVec.ofNat 64 stack.top) start =
      some initial) (memory : Memory) {address : Word}
    (notField : address ≠ statics.kernelSp slot) (outside : ¬stack.Holds address) :
    Tasks.initialised statics memory slot stack initial address = memory address := by
  obtain ⟨place, short⟩ := initial_place lawful may built
  obtain ⟨-, aligned, size, fits, -, -⟩ := may
  unfold stackSize at size
  rw [Tasks.initialised, Function.update_of_ne notField, write_words_outside]
  · apply Function.update_of_ne
    intro same
    apply outside
    rw [same]
    have bottom : (BitVec.ofNat 64 stack.bottom).toNat = stack.bottom := by
      rw [BitVec.toNat_ofNat, Nat.mod_eq_of_lt (by omega)]
    exact ⟨by omega, by omega⟩
  · intro i bound same
    apply outside
    rw [same]
    constructor
    · bv_omega
    · bv_omega

theorem initial_stacked (lawful : code.Lawful) (may : tasks.MaySpawn statics slot stack)
    (built : code.taskInit statics.trampolines (BitVec.ofNat 64 stack.top) start =
      some initial) (memory : Memory) :
    Stacked (initial.kernelSp + words initial.written.length)
      (Tasks.initialised statics memory slot stack initial) initial.kernelSp initial.written := by
  obtain ⟨place, short⟩ := initial_place lawful may built
  obtain ⟨-, -, size, fits, -, fields⟩ := may
  unfold stackSize at size
  have room : initial.written.length < 2 ^ 61 := by omega
  have stored := stacked_write_words
    (Function.update memory (BitVec.ofNat 64 stack.bottom) guardCanary) initial.kernelSp room
  apply stacked_keeps stored
  intro address between
  apply Function.update_of_ne
  intro same
  rw [same] at between
  exact fields slot ⟨by bv_omega, by bv_omega⟩

theorem new_task_asleep (lawful : code.Lawful) (may : tasks.MaySpawn statics slot stack)
    (built : code.taskInit statics.trampolines (BitVec.ofNat 64 stack.top) start =
      some initial) (memory : Memory) :
    Asleep code (Tasks.initialised statics memory slot stack initial) stack initial.kernelSp
      ⟨code.startContext statics.trampolines (BitVec.ofNat 64 stack.top) start,
        Tasks.initialised statics memory slot stack initial⟩ := by
  obtain ⟨place, short⟩ := initial_place lawful may built
  obtain ⟨⟨above, written⟩, pointer, -, -⟩ := lawful.starts _ _ start initial built
  obtain ⟨-, aligned, size, fits, -, -⟩ := id may
  unfold stackSize at size
  have covers : code.frame.length ≤ initial.written.length := by
    rw [written, List.length_append, image_length]
    omega
  have top : initial.kernelSp.toNat + 8 * code.frame.length =
      (code.startContext statics.trampolines
        (BitVec.ofNat 64 stack.top) start).sp.toNat := by
    rw [pointer]
    unfold words
    bv_omega
  constructor
  · have stored := initial_stacked lawful may built memory
    rw [written] at stored
    have image := stacked_prefix stored
    rw [image_length, ← pointer] at image
    exact image
  · show stack.bottom ≤ initial.kernelSp.toNat
    omega
  · exact top
  · show (code.startContext _ _ start).sp.toNat ≤ stack.top
    omega
  · exact fun _ _ _ => rfl

theorem spawn_kept (lawful : code.Lawful) (kept : Kept code statics tasks)
    (may : tasks.MaySpawn statics slot stack) :
    Kept code statics (tasks.spawn code statics slot stack start) := by
  unfold Tasks.spawn
  cases built : code.taskInit statics.trampolines (BitVec.ofNat 64 stack.top) start with
  | none => exact ⟨kept.apart, kept.fields, kept.asleep⟩
  | some initial =>
      have others : ∀ other held, other ≠ slot →
          Function.update tasks.kernelStacks slot (some stack) other = some held →
          tasks.kernelStacks other = some held := by
        intro other held differs live
        rwa [Function.update_of_ne differs] at live
      have own : ∀ held, Function.update tasks.kernelStacks slot (some stack) slot = some held →
          held = stack := by
        intro held live
        rw [Function.update_self] at live
        exact (Option.some.inj live).symm
      have free := may.2.2.2.2
      constructor
      · intro first second firstStack secondStack differs firstLive secondLive
        by_cases new : first = slot
        · subst new
          rw [own firstStack firstLive]
          exact free.1 second secondStack differs.symm (others _ _ differs.symm secondLive)
        · by_cases newer : second = slot
          · subst newer
            rw [own secondStack secondLive]
            exact (free.1 first firstStack differs (others _ _ differs firstLive)).symm
          · exact kept.apart first second firstStack secondStack differs
              (others _ _ new firstLive) (others _ _ newer secondLive)
      · intro other held field live
        by_cases new : other = slot
        · subst new
          rw [own held live]
          exact free.2 field
        · exact kept.fields other held field (others _ _ new live)
      · intro other held differs live
        show ∃ later, Function.update tasks.waiting slot _ other = some later ∧
          Asleep code (Tasks.initialised statics tasks.cpu.memory slot stack initial) held
            (Tasks.initialised statics tasks.cpu.memory slot stack initial
              (statics.kernelSp other)) later
        by_cases new : other = slot
        · subst new
          rw [own held live]
          refine ⟨_, Function.update_self _ _ _, ?_⟩
          have field : Tasks.initialised statics tasks.cpu.memory other stack initial
              (statics.kernelSp other) = initial.kernelSp := Function.update_self _ _ _
          rw [field]
          exact new_task_asleep lawful may built tasks.cpu.memory
        · have present := others _ _ new live
          obtain ⟨waiting, waits, asleep⟩ := kept.asleep other held differs present
          refine ⟨waiting, ?_, ?_⟩
          · rw [Function.update_of_ne new]
            exact waits
          · rw [initialised_elsewhere lawful may built tasks.cpu.memory
              (statics.distinct.ne new) (free.2 other)]
            apply asleep.kept
            intro address held'
            apply initialised_elsewhere lawful may built
            · intro same
              exact kept.fields other held slot present (same ▸ held')
            · exact (free.1 other held new present).symm.not_holds held'

end Spawning

omit [DecidableEq Register] in
theorem boot_kept (cpu : Cpu Register) (stack : Stack)
    (clear : ∀ slot, ¬stack.Holds (statics.kernelSp slot)) :
    Kept code statics (bootTasks cpu stack) := by
  have only : ∀ slot held, (bootTasks cpu stack).kernelStacks slot = some held →
      slot = idleSlot ∧ held = stack := by
    intro slot held live
    unfold bootTasks at live
    dsimp only at live
    split at live
    · rename_i idle
      exact ⟨idle, (Option.some.inj live).symm⟩
    · exact nomatch live
  constructor
  · intro first second firstStack secondStack differs firstLive secondLive
    have same := (only _ _ firstLive).1.trans (only _ _ secondLive).1.symm
    exact absurd same differs
  · intro slot held other live
    rw [(only slot held live).2]
    exact clear other
  · intro slot held differs live
    exact absurd (only slot held live).1 differs

theorem step_kept (lawful : code.Lawful) (kept : Kept code statics tasks)
    {action : Action Register} (allowed : tasks.Allowed code statics action) :
    Kept code statics (tasks.step code statics action).1 ∧
      ∀ resumed, (tasks.step code statics action).2 = some resumed → resumed.Faithful code := by
  by_cases stopped : tasks.halted = true
  · unfold Tasks.step
    rw [if_pos stopped]
    exact ⟨kept, nofun⟩
  · unfold Tasks.step
    rw [if_neg stopped]
    cases action with
    | compute after => exact ⟨compute_kept kept allowed, nofun⟩
    | schedule next returnAddress => exact schedule_step lawful kept allowed
    | spawn slot stack start => exact ⟨spawn_kept lawful kept allowed, nofun⟩
    | release slot => exact ⟨release_kept kept slot, nofun⟩

def Action.spares (slot : Slot) : Action Register → Bool
  | .compute _ => true
  | .schedule next _ => next != slot
  | .spawn filled _ _ => filled != slot
  | .release freed => freed != slot

structure Untouched (tasks : Tasks Register) (slot : Slot) (stack : Stack)
    (waiting : Waiting Register) : Prop where
  aside : slot ≠ tasks.current
  stack : tasks.kernelStacks slot = some stack
  waits : tasks.waiting slot = some waiting

theorem untouched_step {slot : Slot} {stack : Stack} {waiting : Waiting Register}
    (untouched : Untouched tasks slot stack waiting) {action : Action Register}
    (spares : action.spares slot = true) :
    Untouched (tasks.step code statics action).1 slot stack waiting := by
  unfold Tasks.step
  split
  · exact untouched
  · cases action with
    | compute after => exact ⟨untouched.aside, untouched.stack, untouched.waits⟩
    | schedule next returnAddress =>
        have other : slot ≠ next := by
          intro same
          simp [Action.spares, same] at spares
        unfold Tasks.schedule
        dsimp only
        split
        · refine ⟨other, untouched.stack, ?_⟩
          exact (Function.update_of_ne untouched.aside _ _).trans untouched.waits
        · exact ⟨untouched.aside, untouched.stack, untouched.waits⟩
    | spawn filled held start =>
        have other : slot ≠ filled := by
          intro same
          simp [Action.spares, same] at spares
        unfold Tasks.spawn
        dsimp only
        split
        · exact ⟨untouched.aside, untouched.stack, untouched.waits⟩
        · exact ⟨untouched.aside, (Function.update_of_ne other _ _).trans untouched.stack,
            (Function.update_of_ne other _ _).trans untouched.waits⟩
    | release freed =>
        have other : slot ≠ freed := by
          intro same
          simp [Action.spares, same] at spares
        exact ⟨untouched.aside, (Function.update_of_ne other _ _).trans untouched.stack,
          untouched.waits⟩

variable (code statics) in
theorem untouched_run (cpu : Cpu Register) (boot : Stack) {slot : Slot} {stack : Stack}
    {waiting : Waiting Register} (untouched : Untouched tasks slot stack waiting)
    {actions : List (Action Register)} (spares : ∀ action ∈ actions, action.spares slot = true) :
    Untouched ((taskSystem code statics cpu boot).runFrom tasks actions) slot stack waiting := by
  have meets := (taskSystem code statics cpu boot).steps_meet_of_forall tasks spares
  exact EventSystem.run_preserves (fun tasks => Untouched tasks slot stack waiting)
    (fun _ _ untouched spares => untouched_step untouched spares) untouched meets

variable (code statics) in
theorem halted_run (cpu : Cpu Register) (boot : Stack) (halted : tasks.halted = true)
    (actions : List (Action Register)) :
    (taskSystem code statics cpu boot).runFrom tasks actions = tasks := by
  induction actions with
  | nil => rfl
  | cons action rest ih =>
      have stays : (tasks.step code statics action).1 = tasks := by
        unfold Tasks.step
        rw [if_pos halted]
      show (taskSystem code statics cpu boot).runFrom (tasks.step code statics action).1 rest =
        tasks
      rw [stays, ih]

theorem emits_untouched {slot : Slot} {stack : Stack} {waiting : Waiting Register}
    (untouched : Untouched tasks slot stack waiting) {returnAddress : Word}
    {resumed : Resumed Register}
    (emitted : (tasks.step code statics (.schedule slot returnAddress)).2 = some resumed) :
    resumed.stack = some stack ∧ resumed.waiting = waiting := by
  unfold Tasks.step at emitted
  split at emitted
  · exact nomatch emitted
  · unfold Tasks.schedule at emitted
    dsimp only at emitted
    split at emitted
    · rw [untouched.waits, untouched.stack] at emitted
      cases emitted
      exact ⟨rfl, rfl⟩
    · exact nomatch emitted

theorem new_task_resumes (lawful : code.Lawful) {cpu : Cpu Register} {boot : Stack}
    (kept : Kept code statics tasks) {slot : Slot} {stack : Stack} {start : Start}
    {between : List (Action Register)} {returnAddress : Word}
    (spares : ∀ action ∈ between, action.spares slot = true)
    (allowed : (taskSystem code statics cpu boot).StepsMeet
      (fun tasks action => tasks.Allowed code statics action) tasks
      (.spawn slot stack start :: (between ++ [.schedule slot returnAddress])))
    {resumed : Resumed Register}
    (emitted : (Tasks.step code statics
      ((taskSystem code statics cpu boot).runFrom tasks (.spawn slot stack start :: between))
      (.schedule slot returnAddress)).2 = some resumed) :
    ∃ initial, code.taskInit statics.trampolines (BitVec.ofNat 64 stack.top) start =
        some initial ∧
      resumed.Faithful code ∧ resumed.stack = some stack ∧
      resumed.waiting =
        ⟨code.startContext statics.trampolines (BitVec.ofNat 64 stack.top) start,
          Tasks.initialised statics tasks.cpu.memory slot stack initial⟩ := by
  have may : tasks.MaySpawn statics slot stack := allowed.1
  have later := ((taskSystem code statics cpu boot).steps_meet_append _ _ between _).mp allowed.2
  have spawnedKept : Kept code statics (tasks.step code statics (.spawn slot stack start)).1 :=
    (step_kept lawful kept allowed.1).1
  have keptLater := EventSystem.run_preserves (Kept code statics)
    (fun _ _ kept allowed => (step_kept lawful kept allowed).1) spawnedKept later.1
  have faithful := (step_kept lawful keptLater later.2.1).2 resumed emitted
  have silent : ∀ state : Tasks Register, state.halted = true →
      (state.step code statics (.schedule slot returnAddress)).2 = none := by
    intro state halted
    unfold Tasks.step
    rw [if_pos halted]
  have running : (tasks.step code statics (.spawn slot stack start)).1.halted = false := by
    by_contra stopped
    rw [Bool.not_eq_false] at stopped
    have stays := halted_run code statics cpu boot stopped between
    have quiet := silent _ stopped
    rw [← stays] at quiet
    exact absurd (quiet.symm.trans emitted) nofun
  have started : tasks.halted = false := by
    by_contra stopped
    rw [Bool.not_eq_false] at stopped
    unfold Tasks.step at running
    rw [if_pos stopped, stopped] at running
    exact nomatch running
  have spawned : (tasks.step code statics (.spawn slot stack start)).1 =
      tasks.spawn code statics slot stack start := by
    unfold Tasks.step
    rw [if_neg (by rw [started]; decide)]
  cases built : code.taskInit statics.trampolines (BitVec.ofNat 64 stack.top) start with
  | none =>
      rw [spawned, Tasks.spawn, built] at running
      exact nomatch running
  | some initial =>
      have untouched : Untouched (tasks.step code statics (.spawn slot stack start)).1 slot stack
          ⟨code.startContext statics.trampolines (BitVec.ofNat 64 stack.top) start,
            Tasks.initialised statics tasks.cpu.memory slot stack initial⟩ := by
        rw [spawned, Tasks.spawn, built]
        exact ⟨may.1, Function.update_self _ _ _, Function.update_self _ _ _⟩
      have remains := untouched_run code statics cpu boot untouched spares
      obtain ⟨own, waits⟩ := emits_untouched remains emitted
      exact ⟨initial, rfl, faithful, own, waits⟩

theorem first_entry_reads (lawful : code.Lawful) {slot : Slot} {stack : Stack} {start : Start}
    {initial : InitialStack} (may : tasks.MaySpawn statics slot stack)
    (built : code.taskInit statics.trampolines (BitVec.ofNat 64 stack.top) start =
      some initial) {memory : Memory} {resumed : Resumed Register}
    (faithful : resumed.Faithful code) (own : resumed.stack = some stack)
    (waits : resumed.waiting =
      ⟨code.startContext statics.trampolines (BitVec.ofNat 64 stack.top) start,
        Tasks.initialised statics memory slot stack initial⟩)
    {k : Nat} (bound : code.frame.length + k < initial.written.length) :
    resumed.cpu.memory (resumed.cpu.regs code.sp + words k) =
      initial.written[code.frame.length + k] := by
  obtain ⟨place, short⟩ := initial_place lawful may built
  obtain ⟨-, pointer, -, -⟩ := lawful.starts _ _ start initial built
  have fits := may.2.2.2.1
  have sp : resumed.cpu.regs code.sp = initial.kernelSp + words code.frame.length := by
    rw [faithful.1.sp, waits]
    exact pointer
  have address : resumed.cpu.regs code.sp + words k =
      initial.kernelSp + words (code.frame.length + k) := by
    rw [sp]
    unfold words
    bv_omega
  have start : resumed.waiting.context.sp = initial.kernelSp + words code.frame.length := by
    rw [waits]
    exact pointer
  rw [address, faithful.2 stack own, waits]
  · exact (initial_stacked lawful may built memory).held _ bound
  · rw [start]
    unfold words
    bv_omega
  · unfold words
    bv_omega

end

inductive Architecture where
  | x86_64 | riscv64 | aarch64

namespace Architecture

def Register : Architecture → Type
  | .x86_64 => X86Register
  | .riscv64 => RiscvRegister
  | .aarch64 => Aarch64Register

instance decidableRegister : ∀ arch : Architecture, DecidableEq arch.Register
  | .x86_64 => inferInstanceAs (DecidableEq X86Register)
  | .riscv64 => inferInstanceAs (DecidableEq RiscvRegister)
  | .aarch64 => inferInstanceAs (DecidableEq Aarch64Register)

def switchCode : (arch : Architecture) → SwitchCode arch.Register
  | .x86_64 => X86.switchCode
  | .riscv64 => Riscv.switchCode
  | .aarch64 => Aarch64.switchCode

theorem lawful : ∀ arch : Architecture, arch.switchCode.Lawful
  | .x86_64 => X86.lawful
  | .riscv64 => Riscv.lawful
  | .aarch64 => Aarch64.lawful

end Architecture

/-- Whatever the tasks compute and in whichever order they are switched, created
and removed, every task resumes as it was put aside. -/
theorem tasks_keep_contexts (arch : Architecture) (statics : Statics) (cpu : Cpu arch.Register)
    (stack : Stack) (clear : ∀ slot, ¬stack.Holds (statics.kernelSp slot))
    (actions : List (Action arch.Register))
    (allowed : (taskSystem arch.switchCode statics cpu stack).StepsMeet
      (fun tasks action => tasks.Allowed arch.switchCode statics action)
      (bootTasks cpu stack) actions) :
    ∀ resumed ∈ (taskSystem arch.switchCode statics cpu stack).traceFrom (bootTasks cpu stack)
      actions, resumed.Faithful arch.switchCode :=
  EventSystem.trace_satisfies (Kept arch.switchCode statics)
    (fun _ _ kept allowed => (step_kept arch.lawful kept allowed).1)
    (fun _ _ resumed kept allowed emitted => (step_kept arch.lawful kept allowed).2 resumed emitted)
    (boot_kept cpu stack clear) allowed

/-- `TASKS` at 4 KiB, with its fields next to each other. -/
def lowStatics : Statics where
  kernelSp := fun slot => BitVec.ofNat 64 (0x1000 + 8 * slot.val)
  distinct := by
    intro first second same
    have firstBound : first.val < 64 := first.isLt
    have secondBound : second.val < 64 := second.isLt
    have values := congrArg BitVec.toNat same
    simp only [BitVec.toNat_ofNat] at values
    rw [Nat.mod_eq_of_lt (by omega), Nat.mod_eq_of_lt (by omega)] at values
    exact Fin.ext (by omega)
  trampolines := ⟨0x3000, 0x3010⟩

def bootStack : Stack := ⟨0x10000, 0x18000⟩

theorem low_statics_apart {stack : Stack} (high : 0x2000 ≤ stack.bottom) (slot : Slot) :
    ¬stack.Holds (lowStatics.kernelSp slot) := by
  intro held
  have low := held.1
  have bound : slot.val < 64 := slot.isLt
  have address : (lowStatics.kernelSp slot).toNat = (0x1000 + 8 * slot.val) % 2 ^ 64 :=
    BitVec.toNat_ofNat _ _
  omega

def idleX86 : Cpu X86Register := ⟨fun _ => 0x17000, 0x4000, fun _ => 0⟩

theorem first_task_allowed :
    (bootTasks idleX86 bootStack).MaySpawn lowStatics firstSlot ⟨0x20000, 0x28000⟩ := by
  refine ⟨by decide, by decide, rfl, by decide, ?_, low_statics_apart (by decide)⟩
  intro other held differs live
  unfold bootTasks at live
  dsimp only at live
  split at live
  · cases live
    exact .inr (Nat.le_of_ble_eq_true rfl)
  · exact nomatch live

theorem first_task_switch (start : Start) :
    ((bootTasks idleX86 bootStack).spawn X86.switchCode lowStatics firstSlot ⟨0x20000, 0x28000⟩
      start).MaySwitch X86.switchCode firstSlot := by
  have other : firstSlot ≠ idleSlot := by decide
  have room : bootStack.bottom + 8 * 7 ≤ (0x17000 : Word).toNat := by decide
  have inside : (0x17000 : Word).toNat ≤ bootStack.top := by decide
  cases start with
  | kernel entry => exact ⟨other, rfl, bootStack, rfl, room, inside⟩
  | user rip rsp => exact ⟨other, rfl, bootStack, rfl, room, inside⟩
  | fork rip rsp arguments calleeSaved => exact ⟨other, rfl, bootStack, rfl, room, inside⟩

theorem first_task_keeps_contexts :
    ∃ resumed, (taskSystem X86.switchCode lowStatics idleX86 bootStack).traceFrom
        (bootTasks idleX86 bootStack)
        [.spawn firstSlot ⟨0x20000, 0x28000⟩ (.kernel 0x5000), .schedule firstSlot 0x4004] =
          [resumed] ∧ resumed.Faithful X86.switchCode :=
  ⟨_, rfl, tasks_keep_contexts .x86_64 lowStatics idleX86 bootStack
    (low_statics_apart (by decide))
    [.spawn firstSlot ⟨0x20000, 0x28000⟩ (.kernel 0x5000), .schedule firstSlot 0x4004]
    ⟨first_task_allowed, first_task_switch (.kernel 0x5000), trivial⟩ _
    (List.mem_singleton_self _)⟩

structure UserEntry where
  pc : Word
  sp : Word
  userMode : Bool
  interruptsOn : Bool
  deriving DecidableEq

/-- `iretq` in `user_enter_trampoline`: the privilege level is in the selector, IF is bit 9. -/
def iretq (cpu : Cpu X86Register) : UserEntry where
  pc := cpu.memory (cpu.regs .rsp + words 0)
  sp := cpu.memory (cpu.regs .rsp + words 3)
  userMode := cpu.memory (cpu.regs .rsp + words 1) &&& 3 == 3
  interruptsOn := (cpu.memory (cpu.regs .rsp + words 2)).getLsbD 9

/-- `sret` with SPP in bit 8 and SPIE in bit 5 of `sstatus`. -/
def sret (cpu : Cpu RiscvRegister) : UserEntry where
  pc := cpu.regs .sepc
  sp := cpu.regs .sp
  userMode := !(cpu.regs .sstatus).getLsbD 8
  interruptsOn := (cpu.regs .sstatus).getLsbD 5

/-- The `user_enter_trampoline` of the processor, if it has one. -/
def Architecture.userEnterTrampoline :
    (arch : Architecture) → Cpu arch.Register → Option UserEntry
  | .x86_64, cpu => some (iretq cpu)
  | .riscv64, cpu => some (sret (run
      [move RiscvRegister.sepc .s1, move RiscvRegister.sstatus .s2, move RiscvRegister.sp .s0]
      cpu))
  | .aarch64, _ => none

theorem x86_enters {statics : Statics} {tasks : Tasks X86Register} {slot : Slot} {stack : Stack}
    {rip rsp : Word} (may : tasks.MaySpawn statics slot stack) {memory : Memory}
    {resumed : Resumed X86Register} (faithful : resumed.Faithful X86.switchCode)
    (own : resumed.stack = some stack)
    (waits : resumed.waiting =
      ⟨X86.switchCode.startContext statics.trampolines (BitVec.ofNat 64 stack.top)
          (.user rip rsp),
        Tasks.initialised statics memory slot stack
          (X86.taskInitUserspaceStack statics.trampolines.userEnter (BitVec.ofNat 64 stack.top)
            rip rsp)⟩) :
    iretq resumed.cpu = ⟨rip, rsp, true, true⟩ := by
  have word := fun k => first_entry_reads (k := k) X86.lawful may rfl faithful own waits
  have pc : resumed.cpu.memory (resumed.cpu.regs .rsp + words 0) = rip :=
    word 0 (Nat.le_of_ble_eq_true rfl)
  have cs : resumed.cpu.memory (resumed.cpu.regs .rsp + words 1) = userCodeSel :=
    word 1 (Nat.le_of_ble_eq_true rfl)
  have rflags : resumed.cpu.memory (resumed.cpu.regs .rsp + words 2) = 0x202 :=
    word 2 (Nat.le_of_ble_eq_true rfl)
  have sp : resumed.cpu.memory (resumed.cpu.regs .rsp + words 3) = rsp :=
    word 3 (Nat.le_of_ble_eq_true rfl)
  rw [iretq, pc, cs, rflags, sp]
  rfl

theorem riscv_enters {trampolines : Trampolines} {stackEnd rip rsp : Word}
    {resumed : Resumed RiscvRegister}
    (faithful : resumed.Faithful Riscv.switchCode)
    (waits : resumed.waiting.context =
      Riscv.switchCode.startContext trampolines stackEnd (.user rip rsp)) :
    sret (run [move RiscvRegister.sepc .s1, move RiscvRegister.sstatus .s2,
      move RiscvRegister.sp .s0] resumed.cpu) = ⟨rip, rsp, true, true⟩ := by
  have regs := faithful.1.regs
  rw [waits] at regs
  have s0 : resumed.cpu.regs .s0 = rsp := regs .s0 (by decide)
  have s1 : resumed.cpu.regs .s1 = rip := regs .s1 (by decide)
  have s2 : resumed.cpu.regs .s2 = Riscv.userSstatus := regs .s2 (by decide)
  rw [run_cons, run_cons, run_cons, run_nil, execute_move, execute_move, execute_move]
  simp [sret, Cpu.set, s0, s1, s2, Riscv.userSstatus]

/-- A user task enters user mode where its creator said, whatever ran since. -/
theorem user_task_enters (arch : Architecture) (statics : Statics) (cpu : Cpu arch.Register)
    (boot : Stack) (clear : ∀ slot, ¬boot.Holds (statics.kernelSp slot))
    (before between : List (Action arch.Register)) (slot : Slot) (stack : Stack)
    (rip rsp returnAddress : Word) (spares : ∀ action ∈ between, action.spares slot = true)
    (allowed : (taskSystem arch.switchCode statics cpu boot).StepsMeet
      (fun tasks action => tasks.Allowed arch.switchCode statics action) (bootTasks cpu boot)
      (before ++ .spawn slot stack (.user rip rsp) ::
        (between ++ [.schedule slot returnAddress]))) :
    ∀ resumed, (Tasks.step arch.switchCode statics
        ((taskSystem arch.switchCode statics cpu boot).runFrom (bootTasks cpu boot)
          (before ++ .spawn slot stack (.user rip rsp) :: between))
        (.schedule slot returnAddress)).2 = some resumed →
      resumed.cpu.pc = statics.trampolines.userEnter ∧
        arch.userEnterTrampoline resumed.cpu = some ⟨rip, rsp, true, true⟩ := by
  intro resumed emitted
  have split := ((taskSystem arch.switchCode statics cpu boot).steps_meet_append _ _ before _).mp
    allowed
  have kept := EventSystem.run_preserves (Kept arch.switchCode statics)
    (fun _ _ kept allowed => (step_kept arch.lawful kept allowed).1)
    (boot_kept cpu boot clear) split.1
  rw [EventSystem.run_from_append] at emitted
  obtain ⟨initial, built, faithful, own, waits⟩ :=
    new_task_resumes arch.lawful kept spares split.2 emitted
  have pc := faithful.1.pc
  rw [waits] at pc
  cases arch with
  | x86_64 =>
      cases built
      exact ⟨pc, congrArg some (x86_enters split.2.1 faithful own waits)⟩
  | riscv64 =>
      cases built
      exact ⟨pc, congrArg some (riscv_enters faithful (congrArg Waiting.context waits))⟩
  | aarch64 => exact nomatch built

theorem first_user_task_enters :
    ∃ resumed, (Tasks.step X86.switchCode lowStatics
        ((taskSystem X86.switchCode lowStatics idleX86 bootStack).runFrom
          (bootTasks idleX86 bootStack)
          [.spawn firstSlot ⟨0x20000, 0x28000⟩ (.user 0x8000000000 0x8000010000)])
        (.schedule firstSlot 0x4004)).2 = some resumed ∧
      resumed.cpu.pc = 0x3000 ∧
        some (iretq resumed.cpu) = some ⟨0x8000000000, 0x8000010000, true, true⟩ :=
  ⟨_, rfl, user_task_enters .x86_64 lowStatics idleX86 bootStack (low_statics_apart (by decide))
    [] [] firstSlot ⟨0x20000, 0x28000⟩ 0x8000000000 0x8000010000 0x4004 nofun
    ⟨first_task_allowed, first_task_switch (.user 0x8000000000 0x8000010000), trivial⟩ _ rfl⟩

end Ferrugem.TaskContexts
