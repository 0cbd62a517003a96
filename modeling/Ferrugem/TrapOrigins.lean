import Ferrugem.Library.EventSystem
import Ferrugem.SlotReuse

/-!
# The origin of a trap on RISC-V

`trap_entry` tells by `sscratch` whether a trap comes from user mode. The register
is written by `trap_entry`, by its return path and by `schedule`, for the task it
switches to. While a user task is in the kernel `sscratch` may be zero or the top of
its stack; what makes the test right is that interrupts are on only in the idle task,
where `interrupts_init` turned them on: every other task enters the kernel, or starts
there, with interrupts off, and a section gives back what it found. For the idle task
`schedule` stores zero, since its slot is never given to another task.

One RISC-V hart runs the kernel of `Ferrugem.SchedulerModel`. A kernel stack is
represented by what lies on it, and each context carries the kind of task it was
created for and the top of its stack. The kernel code of a context may take its
sections in any order; a panic, which would stop the machine, is left out.
-/

namespace Ferrugem.TrapOrigins

open Ferrugem.ProcessModel Ferrugem.SchedulerModel

set_option autoImplicit false

/-- `size_of::<TrapFrame>()`. -/
def frameSize : Nat := 33 * 8

def stackSize : Nat := 8 * 4096

inductive Privilege where
  | user
  | supervisor
  deriving DecidableEq

/-- A saved trap: where its frame lies and the bits of `sstatus` in it. -/
structure TrapFrame where
  address : Nat
  spp : Privilege
  spie : Bool
  deriving DecidableEq

/-- What the code on a kernel stack still has to finish. -/
inductive Held where
  | frame (frame : TrapFrame)
  | critical (irqsOn : Bool)
  | trampoline
  deriving DecidableEq

structure Thread where
  isUser : Bool
  stackTop : Nat
  deriving DecidableEq

structure Context where
  thread : Thread
  held : List Held

/-- What `kernel_sp` of a task that is not running points at. -/
inductive SavedStack where
  | switched (context : Context) (irqsOn : Bool)
  | userEntry (thread : Thread)
  | kernelEntry (thread : Thread)

def SavedStack.thread : SavedStack → Thread
  | .switched context _ => context.thread
  | .userEntry thread => thread
  | .kernelEntry thread => thread

structure Machine where
  kernel : Kernel
  saved : Slot → SavedStack
  running : Context
  privilege : Privilege
  sie : Bool
  sscratch : Nat

/-- A trap: where it came from, where `trap_entry` took it to come from, and the
top of the frame. -/
structure Trapped where
  origin : Privilege
  taken : Privilege
  top : Nat
  deriving DecidableEq

def idleThread : Thread := ⟨false, 0⟩

def bootMachine : Machine where
  kernel := boot
  saved := fun _ => .kernelEntry idleThread
  running := ⟨idleThread, []⟩
  privilege := .supervisor
  sie := false
  sscratch := 0

/-- A change of the task table that neither creates a task nor switches: wake-ups,
signals, exits and reaped tasks. -/
structure TableChange where
  apply : Kernel → Kernel
  current : ∀ kernel, (apply kernel).current = kernel.current
  keeps : ∀ kernel slot task, (apply kernel).tasks slot = some task →
    ∃ old, kernel.tasks slot = some old ∧ old.isUser = task.isUser ∧ old.stackTop = task.stackTop

namespace Machine

/-- The hart executes kernel code, other than the trampoline. -/
def inKernel (machine : Machine) : Bool :=
  machine.privilege == .supervisor && machine.running.held.head? != some .trampoline

def push (machine : Machine) (held : Held) : Machine :=
  { machine with running := { machine.running with held := held :: machine.running.held } }

/-- The hardware and `trap_entry` up to the call of `trap_handler`; `sp` is the stack
pointer of the interrupted code. -/
def trapEntry (machine : Machine) (sp : Nat) : Machine × Option Trapped :=
  let fromUser := machine.sscratch != 0
  let top := if fromUser then machine.sscratch else sp
  let frame : TrapFrame :=
    { address := top - frameSize, spp := machine.privilege, spie := machine.sie }
  ({ machine.push (.frame frame) with privilege := .supervisor, sie := false, sscratch := 0 },
    some
      { origin := machine.privilege
        taken := if fromUser then .user else .supervisor
        top := top })

/-- The rest of `trap_entry` and `sret`. -/
def trapReturn (machine : Machine) : Machine :=
  match machine.running.held with
  | .frame frame :: rest =>
      { machine with
        running := { machine.running with held := rest }
        privilege := frame.spp
        sie := frame.spie
        sscratch :=
          if frame.spp = .user then frame.address + frameSize else machine.sscratch }
  | _ => machine

/-- `user_enter_trampoline`: the stored `sstatus` has `SPIE` set and `SPP` clear. -/
def enterUser (machine : Machine) : Machine :=
  match machine.running.held with
  | .trampoline :: rest =>
      { machine with
        running := { machine.running with held := rest }
        privilege := .user
        sie := true }
  | _ => machine

/-- `save_and_disable_interrupts`. -/
def saveAndDisable (machine : Machine) : Machine :=
  { machine.push (.critical machine.sie) with sie := false }

/-- `restore_interrupt_state`. -/
def restore (machine : Machine) : Machine :=
  match machine.running.held with
  | .critical irqsOn :: rest =>
      { machine with
        running := { machine.running with held := rest }
        sie := irqsOn || machine.sie }
  | _ => machine

/-- What `context_switch` resumes, with interrupts off. -/
def resume (machine : Machine) : SavedStack → Machine
  | .switched context irqsOn => { machine with running := context, sie := irqsOn }
  | .userEntry thread => { machine with running := ⟨thread, [.trampoline]⟩, sie := false }
  | .kernelEntry thread => { machine with running := ⟨thread, []⟩, sie := false }

def schedule (machine : Machine) : Machine :=
  let next := machine.kernel.pickNext
  if next = machine.kernel.current then machine
  else
    match machine.kernel.tasks next with
    | none => machine
    | some task =>
        resume
          { machine with
            kernel := { machine.kernel with current := next }
            saved := Function.update machine.saved machine.kernel.current
              (.switched machine.running machine.sie)
            sscratch := if task.isUser then task.stackTop else 0 }
          (machine.saved next)

/-- A new task in a slot, with the stack that its first switch finds. -/
def install (machine : Machine) (slot : Slot) (request : Kernel.SpawnRequest) : Machine :=
  let thread : Thread := ⟨request.child.isUser, request.child.stackTop⟩
  { machine with
    kernel := machine.kernel.install slot request
    saved := Function.update machine.saved slot
      (if thread.isUser then .userEntry thread else .kernelEntry thread) }

/-- The slot search of a task creation. It may find the slot of the running task, if
that was killed and runs on. -/
def spawn (machine : Machine) (request : Kernel.SpawnRequest) : Machine :=
  match machine.kernel.firstVacant with
  | some slot => machine.install slot request
  | none => machine

def spawnFork (machine : Machine) (guardPhys stackPhys pageTablePhys fsBase : Nat) : Machine :=
  match machine.kernel.spawnForkRequest guardPhys (stackPhys + stackSize) pageTablePhys fsBase with
  | some request => machine.spawn request
  | none => machine

end Machine

inductive Action where
  | userTrap (sp : Nat)
  | interrupt (sp : Nat)
  | trapReturn
  | enterUser
  | schedule
  | saveAndDisable
  | restore
  | interruptsInit
  | spawnFn (guardPhys stackPhys : Nat)
  | spawnUser (guardPhys stackPhys pageTablePhys heapBrk : Nat)
  | spawnFork (guardPhys stackPhys pageTablePhys fsBase : Nat)
  | elsewhere (change : TableChange)

/-- The action can happen: traps of user code in user mode, interrupts in the kernel
only with `SIE` set, the rest as kernel code of the running context. Only the boot
code, which becomes the idle task, calls `interrupts_init`. -/
def Machine.allows (machine : Machine) : Action → Bool
  | .userTrap _ => machine.privilege == .user
  | .interrupt _ => machine.inKernel && machine.sie
  | .enterUser => machine.privilege == .supervisor
  | .interruptsInit => machine.inKernel && machine.kernel.current == idleSlot
  | .spawnFn _ _ => machine.inKernel && !machine.running.thread.isUser
  | .spawnUser _ _ _ _ => machine.inKernel && !machine.running.thread.isUser
  | .spawnFork _ _ _ _ => machine.inKernel && machine.running.thread.isUser
  | _ => machine.inKernel

def Machine.perform (machine : Machine) : Action → Machine × Option Trapped
  | .userTrap sp => machine.trapEntry sp
  | .interrupt sp => machine.trapEntry sp
  | .trapReturn => (machine.trapReturn, none)
  | .enterUser => (machine.enterUser, none)
  | .schedule => (machine.schedule, none)
  | .saveAndDisable => (machine.saveAndDisable, none)
  | .restore => (machine.restore, none)
  | .interruptsInit => ({ machine with sie := true }, none)
  | .spawnFn guardPhys stackPhys =>
      (machine.spawn (machine.kernel.spawnFnRequest guardPhys (stackPhys + stackSize)), none)
  | .spawnUser guardPhys stackPhys pageTablePhys heapBrk =>
      (machine.spawn (machine.kernel.spawnUserRequest guardPhys (stackPhys + stackSize)
        pageTablePhys heapBrk), none)
  | .spawnFork guardPhys stackPhys pageTablePhys fsBase =>
      (machine.spawnFork guardPhys stackPhys pageTablePhys fsBase, none)
  | .elsewhere change => ({ machine with kernel := change.apply machine.kernel }, none)

def Machine.step (machine : Machine) (action : Action) : Machine × Option Trapped :=
  if machine.allows action then machine.perform action else (machine, none)

def trapSystem : EventSystem Machine Action Trapped where
  init := bootMachine
  step := Machine.step

/-- `sscratch` as the next trap needs it. -/
structure Ready (machine : Machine) : Prop where
  user : machine.privilege = .user → machine.sscratch = machine.running.thread.stackTop
  kernel : machine.privilege = .supervisor → machine.sie = true → machine.sscratch = 0

/-- A trap in the step is taken for what it is, and starts at the top of the task's
own stack if it comes from user mode. -/
def SortsTraps (machine : Machine) (action : Action) : Prop :=
  ∀ trapped, (machine.step action).2 = some trapped →
    trapped.taken = trapped.origin ∧
      (trapped.origin = .user → trapped.top = machine.running.thread.stackTop)

/-- The step does not create a task in the slot of the running one. -/
def SparesOwnSlot (machine : Machine) (action : Action) : Prop :=
  machine.kernel.firstVacant = some machine.kernel.current →
    match action with
    | .spawnFn _ _ | .spawnUser _ _ _ _ | .spawnFork _ _ _ _ => False
    | _ => True

/-- The task table has the running task in the current slot. -/
def InTable (machine : Machine) : Prop :=
  ∀ task, machine.kernel.currentTask = some task →
    machine.running.thread.stackTop = task.stackTop

inductive IdleHeld : List Held → Prop where
  | empty : IdleHeld []
  | frame {rest : List Held} (address : Nat) (spie : Bool) (below : IdleHeld rest) :
      IdleHeld (.frame ⟨address, .supervisor, spie⟩ :: rest)
  | critical {rest : List Held} (irqsOn : Bool) (below : IdleHeld rest) :
      IdleHeld (.critical irqsOn :: rest)

/-- The kernel stack of any other task: sections entered with interrupts off, above
the frame of the trap that brought a user task into the kernel. -/
inductive QuietHeld (thread : Thread) : List Held → Prop where
  | start (isKernel : thread.isUser = false) : QuietHeld thread []
  | trap {frame : TrapFrame} (isUser : thread.isUser = true) (room : frameSize ≤ thread.stackTop)
      (atTop : frame.address + frameSize = thread.stackTop) (spp : frame.spp = .user) :
      QuietHeld thread [.frame frame]
  | critical {rest : List Held} (below : QuietHeld thread rest) :
      QuietHeld thread (.critical false :: rest)

structure InKernelOk (slot : Slot) (context : Context) (irqsOn : Bool) : Prop where
  idle : slot = idleSlot → IdleHeld context.held
  other : slot ≠ idleSlot → irqsOn = false ∧ QuietHeld context.thread context.held

def SavedOk (slot : Slot) (task : Task) : SavedStack → Prop
  | .switched context irqsOn => InKernelOk slot context irqsOn
  | .userEntry thread => slot ≠ idleSlot ∧ task.isUser = true ∧ thread.isUser = true ∧
      thread.stackTop = task.stackTop ∧ frameSize ≤ thread.stackTop
  | .kernelEntry thread => slot ≠ idleSlot ∧ thread.isUser = false

structure InUserOk (machine : Machine) (held : List Held) : Prop where
  other : machine.kernel.current ≠ idleSlot
  isUser : machine.running.thread.isUser = true
  room : frameSize ≤ machine.running.thread.stackTop
  held : machine.running.held = held
  scratch : machine.sscratch = machine.running.thread.stackTop

inductive RunningOk (machine : Machine) : Prop where
  | inUser (mode : machine.privilege = .user) (ok : InUserOk machine [])
  | entering (mode : machine.privilege = .supervisor) (ok : InUserOk machine [.trampoline])
      (off : machine.sie = false)
  | inKernel (mode : machine.privilege = .supervisor)
      (ok : InKernelOk machine.kernel.current machine.running machine.sie)
      (scratch : machine.kernel.current = idleSlot → machine.sscratch = 0)

structure Disciplined (machine : Machine) : Prop where
  running : RunningOk machine
  idle : ∀ task, machine.kernel.tasks idleSlot = some task → task.isUser = false
  saved : ∀ slot task, slot ≠ machine.kernel.current → machine.kernel.tasks slot = some task →
    SavedOk slot task (machine.saved slot)

theorem boot_disciplined : Disciplined bootMachine where
  running := .inKernel rfl ⟨fun _ => .empty, fun other => absurd rfl other⟩ fun _ => rfl
  idle := by
    intro task present
    cases present
    rfl
  saved := by
    intro slot task other present
    have absent : bootMachine.kernel.tasks slot = none := if_neg other
    rw [absent] at present
    cases present

section

variable {machine : Machine}

theorem Disciplined.of_running {later : Machine} (ok : Disciplined machine)
    (kernel : later.kernel = machine.kernel) (saved : later.saved = machine.saved)
    (running : RunningOk later) : Disciplined later where
  running := running
  idle := by
    rw [kernel]
    exact ok.idle
  saved := by
    rw [kernel, saved]
    exact ok.saved

theorem interrupted_idle (ok : RunningOk machine) (mode : machine.privilege = .supervisor)
    (on : machine.sie = true) :
    machine.kernel.current = idleSlot ∧ machine.sscratch = 0 ∧ IdleHeld machine.running.held := by
  cases ok with
  | inUser user => rw [mode] at user; cases user
  | entering _ _ off => rw [on] at off; cases off
  | inKernel _ inKernelOk scratch =>
      by_cases idle : machine.kernel.current = idleSlot
      · exact ⟨idle, scratch idle, inKernelOk.idle idle⟩
      · have off := (inKernelOk.other idle).1
        rw [on] at off
        cases off

theorem user_mode_task (ok : RunningOk machine) (mode : machine.privilege = .user) :
    InUserOk machine [] := by
  cases ok with
  | inUser _ inUserOk => exact inUserOk
  | entering supervisor => rw [mode] at supervisor; cases supervisor
  | inKernel supervisor => rw [mode] at supervisor; cases supervisor

theorem ready_of_disciplined (ok : Disciplined machine) : Ready machine where
  user := fun mode => (user_mode_task ok.running mode).scratch
  kernel := fun mode on => (interrupted_idle ok.running mode on).2.1

theorem top_ne_zero {top : Nat} (room : frameSize ≤ top) : top ≠ 0 := by
  unfold frameSize at room
  omega

theorem user_trap_running (ok : RunningOk machine) (mode : machine.privilege = .user) (sp : Nat) :
    RunningOk (machine.trapEntry sp).1 := by
  obtain ⟨other, isUser, room, held, scratch⟩ := user_mode_task ok mode
  have nonzero := top_ne_zero room
  refine .inKernel rfl ⟨fun idle => absurd idle other, fun _ => ⟨rfl, ?_⟩⟩ fun _ => rfl
  simp only [Machine.trapEntry, Machine.push, held, mode, scratch, bne_iff_ne, ne_eq, nonzero,
    not_false_eq_true, if_true]
  exact .trap isUser room (Nat.sub_add_cancel room) rfl

theorem interrupt_running (ok : RunningOk machine) (mode : machine.privilege = .supervisor)
    (on : machine.sie = true) (sp : Nat) : RunningOk (machine.trapEntry sp).1 := by
  obtain ⟨idle, _, held⟩ := interrupted_idle ok mode on
  refine .inKernel rfl ⟨fun _ => ?_, fun other => absurd idle other⟩ fun _ => rfl
  simp only [Machine.trapEntry, Machine.push, mode]
  exact .frame _ _ held

theorem trap_return_running (ok : RunningOk machine) : RunningOk machine.trapReturn := by
  unfold Machine.trapReturn
  split
  · rename_i frame rest top
    cases ok with
    | inUser _ inUserOk =>
        have held := inUserOk.held
        rw [top] at held
        cases held
    | entering _ inUserOk =>
        have held := inUserOk.held
        rw [top] at held
        cases held
    | inKernel mode inKernelOk scratch =>
        by_cases idle : machine.kernel.current = idleSlot
        · have held := inKernelOk.idle idle
          rw [top] at held
          cases held with
          | frame address spie below =>
              refine .inKernel rfl ⟨fun _ => below, fun other => absurd idle other⟩ fun _ => ?_
              rw [if_neg nofun]
              exact scratch idle
        · have held := (inKernelOk.other idle).2
          rw [top] at held
          cases held with
          | trap isUser room atTop spp =>
              refine .inUser spp ⟨idle, isUser, room, rfl, ?_⟩
              dsimp only
              rw [if_pos spp, atTop]
  · exact ok

theorem enter_user_running (ok : RunningOk machine) : RunningOk machine.enterUser := by
  unfold Machine.enterUser
  split
  · rename_i rest top
    cases ok with
    | inUser _ inUserOk =>
        have held := inUserOk.held
        rw [top] at held
        cases held
    | entering _ inUserOk =>
        obtain ⟨other, isUser, room, held, scratch⟩ := inUserOk
        rw [top] at held
        cases held
        exact .inUser rfl ⟨other, isUser, room, rfl, scratch⟩
    | inKernel mode inKernelOk scratch =>
        by_cases idle : machine.kernel.current = idleSlot
        · have held := inKernelOk.idle idle
          rw [top] at held
          cases held
        · have held := (inKernelOk.other idle).2
          rw [top] at held
          cases held
  · exact ok

theorem in_kernel_cases (ok : RunningOk machine) (inKernel : machine.inKernel = true) :
    machine.privilege = .supervisor ∧
      InKernelOk machine.kernel.current machine.running machine.sie ∧
      (machine.kernel.current = idleSlot → machine.sscratch = 0) := by
  unfold Machine.inKernel at inKernel
  rw [Bool.and_eq_true, beq_iff_eq, bne_iff_ne] at inKernel
  cases ok with
  | inUser mode => rw [inKernel.1] at mode; cases mode
  | entering _ inUserOk =>
      rw [inUserOk.held] at inKernel
      exact absurd rfl inKernel.2
  | inKernel mode inKernelOk scratch => exact ⟨mode, inKernelOk, scratch⟩

theorem save_and_disable_running (ok : RunningOk machine) (inKernel : machine.inKernel = true) :
    RunningOk machine.saveAndDisable := by
  obtain ⟨mode, inKernelOk, scratch⟩ := in_kernel_cases ok inKernel
  refine .inKernel mode ⟨fun idle => ?_, fun other => ?_⟩ scratch
  · exact .critical machine.sie (inKernelOk.idle idle)
  · obtain ⟨off, held⟩ := inKernelOk.other other
    refine ⟨rfl, ?_⟩
    unfold Machine.saveAndDisable Machine.push
    rw [off]
    exact .critical held

theorem restore_running (ok : RunningOk machine) (inKernel : machine.inKernel = true) :
    RunningOk machine.restore := by
  obtain ⟨mode, inKernelOk, scratch⟩ := in_kernel_cases ok inKernel
  unfold Machine.restore
  split
  · rename_i irqsOn rest top
    refine .inKernel mode ⟨fun idle => ?_, fun other => ?_⟩ scratch
    · have held := inKernelOk.idle idle
      rw [top] at held
      cases held with
      | critical _ below => exact below
    · obtain ⟨off, held⟩ := inKernelOk.other other
      rw [top] at held
      cases held with
      | critical below => exact ⟨off, below⟩
  · exact ok

theorem interrupts_init_running (ok : RunningOk machine) (inKernel : machine.inKernel = true)
    (idle : machine.kernel.current = idleSlot) : RunningOk { machine with sie := true } := by
  obtain ⟨mode, inKernelOk, scratch⟩ := in_kernel_cases ok inKernel
  exact .inKernel mode ⟨inKernelOk.idle, fun other => absurd idle other⟩ scratch

/-- The context that a switch resumes, with `sscratch` as `schedule` set it. -/
theorem resume_running {task : Task} {stack : SavedStack}
    (ok : SavedOk machine.kernel.current task stack)
    (idle : machine.kernel.current = idleSlot → task.isUser = false)
    (mode : machine.privilege = .supervisor)
    (scratch : machine.sscratch = if task.isUser then task.stackTop else 0) :
    RunningOk (machine.resume stack) := by
  have zeroed : machine.kernel.current = idleSlot → machine.sscratch = 0 := by
    intro isIdle
    rw [scratch, idle isIdle]
    rfl
  cases stack with
  | switched context irqsOn => exact .inKernel mode ok zeroed
  | userEntry thread =>
      obtain ⟨other, kind, isUser, top, room⟩ := ok
      refine .entering mode ⟨other, isUser, room, rfl, ?_⟩ rfl
      rw [kind, if_pos rfl, ← top] at scratch
      exact scratch
  | kernelEntry thread =>
      obtain ⟨other, isKernel⟩ := ok
      exact .inKernel mode
        ⟨fun isIdle => absurd isIdle other, fun _ => ⟨rfl, .start isKernel⟩⟩ zeroed

theorem resume_tables (machine : Machine) (stack : SavedStack) :
    (machine.resume stack).kernel = machine.kernel ∧
      (machine.resume stack).saved = machine.saved := by
  cases stack <;> exact ⟨rfl, rfl⟩

theorem schedule_disciplined (ok : Disciplined machine) (inKernel : machine.inKernel = true) :
    Disciplined machine.schedule := by
  obtain ⟨mode, inKernelOk, _⟩ := in_kernel_cases ok.running inKernel
  unfold Machine.schedule
  dsimp only
  split_ifs with same
  · exact ok
  cases present : machine.kernel.tasks machine.kernel.pickNext with
  | none => exact ok
  | some task =>
      dsimp only
      have stack := ok.saved _ task same present
      generalize after : ({ machine with
        kernel := { machine.kernel with current := machine.kernel.pickNext }
        saved := Function.update machine.saved machine.kernel.current
          (.switched machine.running machine.sie)
        sscratch := if task.isUser then task.stackTop else 0 } : Machine) = switched
      have kernel : switched.kernel =
          { machine.kernel with current := machine.kernel.pickNext } := by rw [← after]
      have saved : switched.saved = Function.update machine.saved machine.kernel.current
          (.switched machine.running machine.sie) := by rw [← after]
      have running : RunningOk (switched.resume (machine.saved machine.kernel.pickNext)) := by
        have idle : machine.kernel.pickNext = idleSlot → task.isUser = false := by
          intro isIdle
          rw [isIdle] at present
          exact ok.idle task present
        apply @resume_running switched task
        · rw [kernel]
          exact stack
        · rw [kernel]
          exact idle
        · rw [← after]
          exact mode
        · rw [← after]
      obtain ⟨sameKernel, sameSaved⟩ := resume_tables switched (machine.saved machine.kernel.pickNext)
      refine ⟨running, ?_, ?_⟩
      · rw [sameKernel, kernel]
        exact ok.idle
      · intro slot other elsewhere there
        rw [sameKernel, kernel] at elsewhere there
        rw [sameSaved, saved]
        by_cases previous : slot = machine.kernel.current
        · subst previous
          rw [Function.update_self]
          exact inKernelOk
        · rw [Function.update_of_ne previous]
          exact ok.saved slot other previous there

theorem RunningOk.of_same {later : Machine} (ok : RunningOk machine)
    (current : later.kernel.current = machine.kernel.current)
    (running : later.running = machine.running) (privilege : later.privilege = machine.privilege)
    (sie : later.sie = machine.sie) (sscratch : later.sscratch = machine.sscratch) :
    RunningOk later := by
  cases ok with
  | inUser mode inUserOk =>
      obtain ⟨other, isUser, room, held, scratch⟩ := inUserOk
      rw [← current] at other
      rw [← running] at isUser room held scratch
      exact .inUser (privilege.trans mode) ⟨other, isUser, room, held, sscratch.trans scratch⟩
  | entering mode inUserOk off =>
      obtain ⟨other, isUser, room, held, scratch⟩ := inUserOk
      rw [← current] at other
      rw [← running] at isUser room held scratch
      exact .entering (privilege.trans mode) ⟨other, isUser, room, held, sscratch.trans scratch⟩
        (sie.trans off)
  | inKernel mode inKernelOk scratch =>
      rw [← current, ← running, ← sie] at inKernelOk
      rw [← current, ← sscratch] at scratch
      exact .inKernel (privilege.trans mode) inKernelOk scratch

theorem installed_ok {slot : Slot} (other : slot ≠ idleSlot) {request : Kernel.SpawnRequest}
    (pid : Nat) (room : request.child.isUser = true → frameSize ≤ request.child.stackTop) :
    SavedOk slot { request.child with pid := pid }
      (if request.child.isUser then
        .userEntry ⟨request.child.isUser, request.child.stackTop⟩
      else .kernelEntry ⟨request.child.isUser, request.child.stackTop⟩) := by
  cases kind : request.child.isUser with
  | true => exact ⟨other, kind, rfl, rfl, room kind⟩
  | false => exact ⟨other, rfl⟩

theorem install_disciplined (ok : Disciplined machine) {slot : Slot} (notIdle : slot ≠ idleSlot)
    {request : Kernel.SpawnRequest}
    (room : request.child.isUser = true → frameSize ≤ request.child.stackTop) :
    Disciplined (machine.install slot request) where
  running := ok.running.of_same rfl rfl rfl rfl rfl
  idle := by
    intro task present
    change Function.update machine.kernel.tasks slot _ idleSlot = some task at present
    rw [Function.update_of_ne (Ne.symm notIdle)] at present
    exact ok.idle task present
  saved := by
    intro other task elsewhere present
    change Function.update machine.kernel.tasks slot _ other = some task at present
    change SavedOk other task (Function.update machine.saved slot _ other)
    by_cases here : other = slot
    · subst here
      rw [Function.update_self] at present ⊢
      cases present
      exact installed_ok notIdle machine.kernel.nextPid room
    · rw [Function.update_of_ne here] at present ⊢
      exact ok.saved other task elsewhere present

theorem spawn_disciplined (ok : Disciplined machine) {request : Kernel.SpawnRequest}
    (room : request.child.isUser = true → frameSize ≤ request.child.stackTop) :
    Disciplined (machine.spawn request) := by
  unfold Machine.spawn
  split
  · rename_i slot found
    exact install_disciplined ok (SlotReuse.first_vacant_least found).1 room
  · exact ok

theorem stack_room (stackPhys : Nat) : frameSize ≤ stackPhys + stackSize := by
  have larger : frameSize ≤ stackSize := by decide
  omega

theorem spawn_fork_disciplined (ok : Disciplined machine)
    (guardPhys stackPhys pageTablePhys fsBase : Nat) :
    Disciplined (machine.spawnFork guardPhys stackPhys pageTablePhys fsBase) := by
  unfold Machine.spawnFork
  split
  · rename_i request made
    unfold Kernel.spawnForkRequest at made
    obtain ⟨parent, _, rfl⟩ := Option.map_eq_some_iff.mp made
    exact spawn_disciplined ok fun _ => stack_room stackPhys
  · exact ok

theorem change_disciplined (ok : Disciplined machine) (change : TableChange) :
    Disciplined { machine with kernel := change.apply machine.kernel } where
  running := ok.running.of_same (change.current machine.kernel) rfl rfl rfl rfl
  idle := by
    intro task present
    obtain ⟨old, was, kind, _⟩ := change.keeps _ _ _ present
    rw [← kind]
    exact ok.idle old was
  saved := by
    intro slot task elsewhere present
    dsimp only at elsewhere present ⊢
    rw [change.current] at elsewhere
    obtain ⟨old, was, kind, top⟩ := change.keeps _ _ _ present
    have stack := ok.saved slot old elsewhere was
    unfold SavedOk at stack ⊢
    rw [← kind, ← top]
    exact stack

theorem return_tables (machine : Machine) :
    (machine.trapReturn.kernel = machine.kernel ∧ machine.trapReturn.saved = machine.saved ∧
      machine.trapReturn.running.thread = machine.running.thread) ∧
    (machine.enterUser.kernel = machine.kernel ∧ machine.enterUser.saved = machine.saved ∧
      machine.enterUser.running.thread = machine.running.thread) ∧
    (machine.restore.kernel = machine.kernel ∧ machine.restore.saved = machine.saved ∧
      machine.restore.running.thread = machine.running.thread) := by
  refine ⟨?_, ?_, ?_⟩
  · unfold Machine.trapReturn
    split <;> exact ⟨rfl, rfl, rfl⟩
  · unfold Machine.enterUser
    split <;> exact ⟨rfl, rfl, rfl⟩
  · unfold Machine.restore
    split <;> exact ⟨rfl, rfl, rfl⟩

theorem disciplined_step (ok : Disciplined machine) (action : Action) :
    Disciplined (machine.step action).1 := by
  unfold Machine.step
  split_ifs with allowed
  swap
  · exact ok
  obtain ⟨returned, entered, restored⟩ := return_tables machine
  cases action with
  | userTrap sp =>
      exact ok.of_running rfl rfl (user_trap_running ok.running (beq_iff_eq.mp allowed) sp)
  | interrupt sp =>
      obtain ⟨inKernel, on⟩ := Bool.and_eq_true_iff.mp allowed
      have mode := (in_kernel_cases ok.running inKernel).1
      exact ok.of_running rfl rfl (interrupt_running ok.running mode on sp)
  | trapReturn => exact ok.of_running returned.1 returned.2.1 (trap_return_running ok.running)
  | enterUser => exact ok.of_running entered.1 entered.2.1 (enter_user_running ok.running)
  | schedule => exact schedule_disciplined ok allowed
  | saveAndDisable => exact ok.of_running rfl rfl (save_and_disable_running ok.running allowed)
  | restore => exact ok.of_running restored.1 restored.2.1 (restore_running ok.running allowed)
  | interruptsInit =>
      obtain ⟨inKernel, idle⟩ := Bool.and_eq_true_iff.mp allowed
      exact ok.of_running rfl rfl
        (interrupts_init_running ok.running inKernel (beq_iff_eq.mp idle))
  | spawnFn guardPhys stackPhys => exact spawn_disciplined ok nofun
  | spawnUser guardPhys stackPhys pageTablePhys heapBrk =>
      exact spawn_disciplined ok fun _ => stack_room stackPhys
  | spawnFork guardPhys stackPhys pageTablePhys fsBase =>
      exact spawn_fork_disciplined ok _ _ _ _
  | elsewhere change => exact change_disciplined ok change

theorem sorts_traps (ok : Disciplined machine) (action : Action) : SortsTraps machine action := by
  intro trapped emitted
  unfold Machine.step at emitted
  split_ifs at emitted with allowed
  cases action with
  | userTrap sp =>
      have mode := beq_iff_eq.mp allowed
      obtain ⟨_, _, room, _, scratch⟩ := user_mode_task ok.running mode
      have nonzero : (machine.sscratch != 0) = true := by
        rw [scratch]
        exact bne_iff_ne.mpr (top_ne_zero room)
      cases emitted
      dsimp only
      rw [nonzero, mode]
      exact ⟨rfl, fun _ => scratch⟩
  | interrupt sp =>
      obtain ⟨inKernel, on⟩ := Bool.and_eq_true_iff.mp allowed
      have mode := (in_kernel_cases ok.running inKernel).1
      have scratch := (interrupted_idle ok.running mode on).2.1
      cases emitted
      dsimp only
      rw [scratch, mode]
      exact ⟨rfl, nofun⟩
  | _ => cases emitted

end

def Machine.threadAt (machine : Machine) (slot : Slot) : Thread :=
  if slot = machine.kernel.current then machine.running.thread else (machine.saved slot).thread

def Matched (machine : Machine) : Prop :=
  ∀ slot task, machine.kernel.tasks slot = some task →
    (machine.threadAt slot).stackTop = task.stackTop

section

variable {machine : Machine}

theorem Matched.of_same {later : Machine} (matched : Matched machine)
    (kernel : later.kernel = machine.kernel) (saved : later.saved = machine.saved)
    (thread : later.running.thread = machine.running.thread) : Matched later := by
  unfold Matched Machine.threadAt at *
  rw [kernel, saved, thread]
  exact matched

theorem matched_schedule (matched : Matched machine) : Matched machine.schedule := by
  unfold Machine.schedule
  dsimp only
  split_ifs with same
  · exact matched
  split
  · exact matched
  · rename_i task present
    intro slot other there
    obtain ⟨sameKernel, sameSaved⟩ := resume_tables
      { machine with
        kernel := { machine.kernel with current := machine.kernel.pickNext }
        saved := Function.update machine.saved machine.kernel.current
          (.switched machine.running machine.sie)
        sscratch := if task.isUser then task.stackTop else 0 }
      (machine.saved machine.kernel.pickNext)
    rw [sameKernel] at there
    have before := matched slot other there
    unfold Machine.threadAt at before ⊢
    rw [sameKernel, sameSaved]
    dsimp only
    by_cases next : slot = machine.kernel.pickNext
    · rw [if_pos next]
      rw [next, if_neg same] at before
      rw [← before]
      cases machine.saved machine.kernel.pickNext <;> rfl
    · rw [if_neg next]
      by_cases previous : slot = machine.kernel.current
      · rw [if_pos previous] at before
        rw [previous, Function.update_self]
        exact before
      · rw [if_neg previous] at before
        rw [Function.update_of_ne previous]
        exact before

theorem matched_install (matched : Matched machine) {slot : Slot} {request : Kernel.SpawnRequest}
    (spares : slot ≠ machine.kernel.current) : Matched (machine.install slot request) := by
  intro other task present
  change Function.update machine.kernel.tasks slot _ other = some task at present
  unfold Machine.threadAt
  change (if other = machine.kernel.current then machine.running.thread
    else (Function.update machine.saved slot _ other).thread).stackTop = task.stackTop
  by_cases here : other = slot
  · subst here
    rw [Function.update_self] at present
    cases present
    rw [if_neg spares, Function.update_self]
    cases request.child.isUser <;> rfl
  · rw [Function.update_of_ne here] at present ⊢
    exact matched other task present

theorem matched_spawn (matched : Matched machine) (request : Kernel.SpawnRequest)
    (spares : machine.kernel.firstVacant ≠ some machine.kernel.current) :
    Matched (machine.spawn request) := by
  unfold Machine.spawn
  split
  · rename_i slot found
    apply matched_install matched
    rintro rfl
    exact spares found
  · exact matched

theorem matched_step {action : Action} (matched : Matched machine)
    (spares : SparesOwnSlot machine action) : Matched (machine.step action).1 := by
  unfold Machine.step
  split_ifs with allowed
  swap
  · exact matched
  obtain ⟨⟨_, _, _⟩, ⟨_, _, _⟩, ⟨_, _, _⟩⟩ := return_tables machine
  cases action with
  | userTrap sp => exact matched.of_same rfl rfl rfl
  | interrupt sp => exact matched.of_same rfl rfl rfl
  | trapReturn => apply matched.of_same <;> assumption
  | enterUser => apply matched.of_same <;> assumption
  | schedule => exact matched_schedule matched
  | saveAndDisable => exact matched.of_same rfl rfl rfl
  | restore => apply matched.of_same <;> assumption
  | interruptsInit => exact matched.of_same rfl rfl rfl
  | spawnFn guardPhys stackPhys => exact matched_spawn matched _ spares
  | spawnUser guardPhys stackPhys pageTablePhys heapBrk => exact matched_spawn matched _ spares
  | spawnFork guardPhys stackPhys pageTablePhys fsBase =>
      dsimp only [Machine.perform]
      unfold Machine.spawnFork
      split
      · exact matched_spawn matched _ spares
      · exact matched
  | elsewhere change =>
      intro slot task present
      obtain ⟨old, was, _, top⟩ := change.keeps _ _ _ present
      have before := matched slot old was
      have same : (machine.perform (.elsewhere change)).1.threadAt slot = machine.threadAt slot := by
        unfold Machine.threadAt
        simp only [Machine.perform, change.current]
      rw [same, before, top]

end

theorem boot_matched : Matched bootMachine := by
  intro slot task present
  by_cases idle : slot = bootMachine.kernel.current
  · subst idle
    cases present
    rfl
  · have absent : bootMachine.kernel.tasks slot = none := if_neg idle
    rw [absent] at present
    cases present

/-- In every run, user mode finds the top of the running task's kernel stack in
`sscratch` and the kernel with interrupts on finds zero, so that every trap is taken
for what it is and a trap from user mode starts at the top of that stack. Unless a
killed task has created another in its own slot, that is the top of the stack of the
task that the table has in the current slot. -/
theorem sscratch_tells_origin (actions : List Action) :
    Ready (trapSystem.runFrom trapSystem.init actions) ∧
      trapSystem.StepsMeet SortsTraps trapSystem.init actions ∧
      (trapSystem.StepsMeet SparesOwnSlot trapSystem.init actions →
        InTable (trapSystem.runFrom trapSystem.init actions)) := by
  have steps : ∀ machine action, Disciplined machine →
      Disciplined (trapSystem.step machine action).1 :=
    fun _ action ok => disciplined_step ok action
  refine ⟨?_, ?_, ?_⟩
  · apply ready_of_disciplined
    exact EventSystem.run_keeps Disciplined steps actions boot_disciplined
  · exact EventSystem.steps_hold Disciplined steps (fun _ action ok => sorts_traps ok action)
      actions boot_disciplined
  · intro spares task present
    have matched : Matched (trapSystem.runFrom trapSystem.init actions) :=
      EventSystem.run_preserves Matched (fun _ _ matched spares => matched_step matched spares)
        boot_matched spares
    have top := matched _ task present
    unfold Machine.threadAt at top
    rw [if_pos rfl] at top
    exact top

example :
    let reached := trapSystem.runFrom trapSystem.init
      [.interruptsInit, .spawnUser 4096 8192 65536 0, .interrupt 1024, .schedule, .enterUser]
    reached.privilege = .user ∧ reached.sscratch = 8192 + stackSize := by
  decide +kernel

end Ferrugem.TrapOrigins
