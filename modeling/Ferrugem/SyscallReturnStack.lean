import Ferrugem.TaskLifecycle

/-!
# The user stack pointer across a system call

`syscall_entry_asm` keeps the caller's registers on the task's own kernel
stack, but the user `RSP` in the single global `SYSCALL_USER_RSP`. A call that
blocks returns with whatever the last entry, or the last `execve` redirect,
of any task left there. The value is right as long as every write to the global
agrees with the entry `RSP` of each call that is still suspended.
-/

namespace Ferrugem.SyscallReturnStack

open Ferrugem.ProcessModel Ferrugem.SchedulerModel Ferrugem.KernelMachine
open Ferrugem.KernelEvolution Ferrugem.TaskLifecycle

set_option autoImplicit false

/-- The `RSP` loaded before `sysretq` is the one of the same call's entry, or
the one its own `execve` produced. -/
def UserRspReturned : Event → Prop
  | .sysret _ expected loaded => loaded = expected
  | _ => True

/-- The slot holds a task that `schedule` may still pick. -/
def resumable (kernel : Kernel) (slot : Slot) : Bool :=
  (kernel.tasks slot).any fun task => slot == idleSlot || task.state != .zombie

/-- The system call in which a switched-out task is suspended. -/
def suspendedCall (machine : Machine) (slot : Slot) : Option SyscallFrame :=
  if slot ≠ machine.kernel.current ∧ resumable machine.kernel slot then
    (machine.savedStacks slot).context.syscall
  else none

/-- The value a step stores in `SYSCALL_USER_RSP`, if it does. -/
def rspWritten (machine : Machine) (action : Action) : Option Nat :=
  if machine.halted then none
  else
    match action with
    | .syscallEntry =>
        if machine.running.syscall.isNone ∧ machine.kernel.currentTask.any Task.isUser then
          some machine.running.userRsp
        else none
    | .sysret =>
        if machine.running.syscall.isSome then machine.execCtx.map fun target => target.2.1
        else none
    | _ => none

/-- A write to `SYSCALL_USER_RSP` stores the entry `RSP` of every call of
another task that is still suspended. -/
def RspWriteAgrees (machine : Machine) (action : Action) : Prop :=
  ∀ value ∈ rspWritten machine action, ∀ slot, ∀ call ∈ suspendedCall machine slot,
    call.entryRsp = value

instance decidableRspWriteAgrees (machine : Machine) (action : Action) :
    Decidable (RspWriteAgrees machine action) :=
  inferInstanceAs (Decidable (∀ value ∈ rspWritten machine action,
    ∀ slot, ∀ call ∈ suspendedCall machine slot, call.entryRsp = value))

structure StacksKept (machine : Machine) : Prop where
  running : ∀ call ∈ machine.running.syscall, call.entryRsp = machine.syscallUserRsp
  redirect : (machine.execCtx.map fun target => target.2.1) =
    machine.running.syscall.bind SyscallFrame.execRsp
  suspended : ∀ slot, ∀ call ∈ suspendedCall machine slot,
    call.entryRsp = machine.syscallUserRsp
  unredirected : ∀ slot, ∀ call ∈ (machine.savedStacks slot).context.syscall,
    call.execRsp = none

theorem suspended_call_iff {machine : Machine} {slot : Slot} {call : SyscallFrame} :
    call ∈ suspendedCall machine slot ↔
      slot ≠ machine.kernel.current ∧ resumable machine.kernel slot = true ∧
        (machine.savedStacks slot).context.syscall = some call := by
  unfold suspendedCall
  split_ifs with waiting
  · simp [waiting.1, waiting.2]
  · simp only [Option.mem_def, reduceCtorEq, false_iff, not_and]
    exact fun other live => absurd ⟨other, live⟩ waiting

theorem stacks_kept_boot : StacksKept bootMachine where
  running := by simp [bootMachine, Context.entering]
  redirect := by simp [bootMachine, Context.entering]
  suspended := by
    intro slot call waiting
    obtain ⟨-, -, inside⟩ := suspended_call_iff.mp waiting
    simp [bootMachine, SavedStack.context, Context.entering] at inside
  unredirected := by simp [bootMachine, SavedStack.context, Context.entering]

theorem resumable_iff {kernel : Kernel} {slot : Slot} :
    resumable kernel slot = true ↔
      ∃ task, kernel.tasks slot = some task ∧ (slot = idleSlot ∨ task.state ≠ .zombie) := by
  simp [resumable, Option.any_eq_true]

theorem resumable_of_evolves {before after : Kernel} (evolves : KernelEvolves before after)
    {slot : Slot} (live : resumable after slot = true) : resumable before slot = true := by
  obtain ⟨task, present, alive⟩ := resumable_iff.mp live
  obtain ⟨prior, priorPresent, change⟩ := evolves.task_before present
  refine resumable_iff.mpr ⟨prior, priorPresent, alive.imp_right ?_⟩
  exact fun running dead => running (change.zombie dead)

theorem stacks_kept_kernel {machine after : Machine} (kept : StacksKept machine)
    (others : after = { machine.withKernel after.kernel with
      halted := after.halted, blockedOn := after.blockedOn, fsBase := after.fsBase })
    (current : after.kernel.current = machine.kernel.current)
    (live : ∀ slot, slot ≠ machine.kernel.current → resumable after.kernel slot = true →
      resumable machine.kernel slot = true) : StacksKept after where
  running := by rw [others]; exact kept.running
  redirect := by rw [others]; exact kept.redirect
  suspended := by
    intro slot call waiting
    obtain ⟨other, alive, inside⟩ := suspended_call_iff.mp waiting
    rw [current] at other
    rw [others] at inside ⊢
    exact kept.suspended slot call (suspended_call_iff.mpr ⟨other, live slot other alive, inside⟩)
  unredirected := by rw [others]; exact kept.unredirected

theorem resumable_of_same {before after : Kernel} {slot : Slot}
    (same : after.tasks slot = before.tasks slot) (live : resumable after slot = true) :
    resumable before slot = true := by
  unfold resumable at live ⊢
  rwa [same] at live

theorem picked_resumable {kernel : Kernel} {task : Task}
    (incoming : kernel.tasks kernel.pickNext = some task) :
    resumable kernel kernel.pickNext = true := by
  refine resumable_iff.mpr ⟨task, incoming, ?_⟩
  by_cases idle : kernel.pickNext = idleSlot
  · exact .inl idle
  · right
    unfold Kernel.pickNext at idle incoming
    cases found : ((List.range (maxTasks - 1)).map
        (Kernel.scanSlot kernel.current)).find? kernel.isReady with
    | none => simp [found] at idle
    | some slot =>
        have ready := List.find?_some found
        rw [found, Option.getD_some] at incoming
        simp only [Kernel.isReady, incoming, Option.any_some, beq_iff_eq] at ready
        simp [ready]

theorem stacks_kept_schedule {machine : Machine} (kept : StacksKept machine)
    (going : machine.returning = false) : StacksKept machine.schedule.1 := by
  have plain : ∀ call ∈ machine.running.syscall, call.execRsp = none := by
    intro call inside
    simp only [Option.mem_def] at inside
    simpa [Machine.returning, inside] using going
  have shape := schedule_case machine
  generalize machine.schedule = result at shape ⊢
  cases shape with
  | stays => exact kept
  | halts => exact stacks_kept_kernel kept rfl rfl fun _ _ live => live
  | @switched next prevTask nextTask picked different incoming outgoing =>
      obtain ⟨irqsOn, fsBase, halted, shape⟩ := resume_keeps
        (machine.switchOut next prevTask nextTask) next (machine.savedStacks next)
      subst picked
      have entered : ∀ call ∈ (machine.savedStacks machine.kernel.pickNext).context.syscall,
          call ∈ suspendedCall machine machine.kernel.pickNext := fun call inside =>
        suspended_call_iff.mpr ⟨different, picked_resumable incoming, inside⟩
      rw [shape]
      constructor
      · exact fun call inside => kept.suspended _ call (entered call inside)
      · change (machine.execCtx.map fun target => target.2.1) = _
        rw [kept.redirect]
        have none_before : machine.running.syscall.bind SyscallFrame.execRsp = none :=
          Option.bind_eq_none_iff.mpr plain
        have none_after : (machine.savedStacks machine.kernel.pickNext).context.syscall.bind
            SyscallFrame.execRsp = none :=
          Option.bind_eq_none_iff.mpr (kept.unredirected _)
        rw [none_before, none_after]
      · intro slot call waiting
        obtain ⟨other, live, inside⟩ := suspended_call_iff.mp waiting
        by_cases wasCurrent : slot = machine.kernel.current
        · subst wasCurrent
          simp only [Machine.switchOut, Function.update_self, SavedStack.context] at inside
          exact kept.running call inside
        · simp only [Machine.switchOut, Function.update_of_ne wasCurrent] at inside
          refine kept.suspended slot call (suspended_call_iff.mpr ⟨wasCurrent, ?_, inside⟩)
          exact resumable_of_same
            (@switch_out_other machine _ prevTask nextTask slot wasCurrent) live
      · intro slot call inside
        by_cases wasCurrent : slot = machine.kernel.current
        · subst wasCurrent
          simp only [Machine.switchOut, Function.update_self, SavedStack.context] at inside
          exact plain call inside
        · simp only [Machine.switchOut, Function.update_of_ne wasCurrent] at inside
          exact kept.unredirected slot call inside

theorem apply_exec_redirect_rsp (machine : Machine) :
    machine.applyExecRedirect.syscallUserRsp =
      (machine.execCtx.map fun target => target.2.1).getD machine.syscallUserRsp := by
  unfold Machine.applyExecRedirect
  split
  · rename_i present
    simp [present]
  · rename_i absent
    simp [absent]

theorem apply_exec_redirect_keeps (machine : Machine) :
    machine.applyExecRedirect.kernel = machine.kernel ∧
      machine.applyExecRedirect.savedStacks = machine.savedStacks ∧
      machine.applyExecRedirect.execCtx = none := by
  unfold Machine.applyExecRedirect
  split
  · exact ⟨rfl, rfl, rfl⟩
  · rename_i absent
    exact ⟨rfl, rfl, absent⟩

theorem stacks_kept_sysret {machine : Machine} {frame : SyscallFrame} (kept : StacksKept machine)
    (inside : machine.running.syscall = some frame)
    (agrees : ∀ value ∈ machine.execCtx.map fun target => target.2.1,
      ∀ slot, ∀ call ∈ suspendedCall machine slot, call.entryRsp = value) :
    StacksKept machine.sysret.1 := by
  obtain ⟨kernel, savedStacks, execCtx⟩ := apply_exec_redirect_keeps machine
  unfold Machine.sysret
  simp only [inside]
  constructor
  · simp
  · simp [execCtx]
  · intro slot call waiting
    obtain ⟨other, live, saved⟩ := suspended_call_iff.mp waiting
    simp only [kernel, savedStacks] at other live saved
    have before := suspended_call_iff.mpr ⟨other, live, saved⟩
    change call.entryRsp = machine.applyExecRedirect.syscallUserRsp
    rw [apply_exec_redirect_rsp]
    cases written : machine.execCtx.map fun target => target.2.1 with
    | none => exact kept.suspended slot call before
    | some value => exact agrees value written slot call before
  · intro slot call saved
    simp only [savedStacks] at saved
    exact kept.unredirected slot call saved

theorem sysret_event {machine : Machine} {frame : SyscallFrame} (kept : StacksKept machine)
    (inside : machine.running.syscall = some frame) :
    ∀ event, machine.sysret.2 = some event → UserRspReturned event := by
  intro event emitted
  simp only [Machine.sysret, inside, Option.some.injEq] at emitted
  subst emitted
  simp only [UserRspReturned]
  rw [apply_exec_redirect_rsp, kept.redirect, inside, Option.bind_some,
    kept.running frame inside]

/-- Writes to the current slot of `base`, which differs from the machine's
kernel in its wait records and its pool only. -/
theorem stacks_kept_set_current {machine after : Machine} {base : Kernel} {task : Task}
    (kept : StacksKept machine)
    (written : after.kernel = base.setTask machine.kernel.current task)
    (others : after = { machine.withKernel after.kernel with
      halted := after.halted, blockedOn := after.blockedOn, fsBase := after.fsBase })
    (tasks : base.tasks = machine.kernel.tasks) (current : base.current = machine.kernel.current) :
    StacksKept after := by
  refine stacks_kept_kernel kept others (by rw [written]; exact current) ?_
  intro slot different live
  refine resumable_of_same ?_ live
  rw [written, set_task_other base task different, tasks]

theorem stacks_kept_perform {machine : Machine} {action : Action} (kept : StacksKept machine)
    (running : machine.halted = false)
    (going : machine.returning = false ∨ action = .sysret)
    (agrees : RspWriteAgrees machine action) : StacksKept (machine.perform action).1 := by
  have shape := perform_case machine action
  generalize machine.perform action = result at shape ⊢
  cases shape with
  | quiet origin evolves =>
      exact stacks_kept_kernel kept rfl evolves.current fun _ _ => resumable_of_evolves evolves
  | @switches _ before source evolves others =>
      have free : machine.returning = false := by
        rcases going with free | leaving
        · exact free
        · rcases source with ⟨rfl, -⟩ | ⟨rfl, -, -⟩ <;> cases leaving
      refine stacks_kept_schedule (stacks_kept_kernel kept ?_ evolves.current
        fun _ _ => resumable_of_evolves evolves) ?_
      · rw [others]
        rfl
      · rw [others]
        exact free
  | halts unchanged => exact stacks_kept_kernel kept rfl rfl fun _ _ live => live
  | exits present => exact stacks_kept_set_current kept rfl rfl rfl rfl
  | @reaps _ _ reapedSlot _ found present =>
      refine stacks_kept_kernel kept rfl rfl ?_
      intro slot different live
      obtain ⟨task, remaining, alive⟩ := resumable_iff.mp live
      by_cases cleared : slot = reapedSlot
      · subst cleared
        simp [Machine.withKernel] at remaining
      · simp only [Machine.withKernel, Function.update_of_ne cleared] at remaining
        exact resumable_iff.mpr ⟨task, remaining, alive⟩
  | blocksOnChild absent living present => exact stacks_kept_set_current kept rfl rfl rfl rfl
  | blocksOnTty present => exact stacks_kept_set_current kept rfl rfl rfl rfl
  | blocksOnPipe must present => exact stacks_kept_set_current kept rfl rfl rfl rfl
  | gathers unchosen => exact ⟨kept.running, kept.redirect, kept.suspended, kept.unredirected⟩
  | chooses gathered vacant => exact ⟨kept.running, kept.redirect, kept.suspended, kept.unredirected⟩
  | @installs target request userRsp chosen =>
      refine ⟨kept.running, kept.redirect, ?_, ?_⟩
      · intro slot call waiting
        obtain ⟨other, live, inside⟩ := suspended_call_iff.mp waiting
        by_cases written : slot = target
        · subst written
          simp [SavedStack.context, Context.entering] at inside
        · simp only [Function.update_of_ne written] at inside
          refine kept.suspended slot call (suspended_call_iff.mpr ⟨other, ?_, inside⟩)
          refine resumable_of_same ?_ live
          simp only [Kernel.install, Function.update_of_ne written]
      · intro slot call inside
        by_cases written : slot = target
        · subst written
          simp [SavedStack.context, Context.entering] at inside
        · simp only [Function.update_of_ne written] at inside
          exact kept.unredirected slot call inside
  | setsFsBase =>
      refine stacks_kept_kernel kept rfl (modify_current_current _ _) ?_
      exact fun slot different => resumable_of_same (modify_current_other _ _ different)
  | writesFsBase => exact stacks_kept_kernel kept rfl rfl fun _ _ live => live
  | @execs newIp newSp newPt heapStart frame inside =>
      simp only [Machine.execve, inside]
      refine ⟨?_, rfl, ?_, kept.unredirected⟩
      · intro call redirected
        cases redirected
        exact kept.running frame inside
      · intro slot call waiting
        obtain ⟨other, live, saved⟩ := suspended_call_iff.mp waiting
        have different : slot ≠ machine.kernel.current := by
          simpa only [Kernel.execveTask, modify_current_current] using other
        refine kept.suspended slot call (suspended_call_iff.mpr ⟨different, ?_, saved⟩)
        exact resumable_of_same (modify_current_other _ _ different) live
  | movesStack outside =>
      exact ⟨kept.running, kept.redirect, kept.suspended, kept.unredirected⟩
  | enters outside user =>
      have written : rspWritten machine .syscallEntry = some machine.running.userRsp := by
        simp [rspWritten, running, outside, user]
      refine ⟨?_, ?_, ?_, kept.unredirected⟩
      · intro call entered
        cases entered
        rfl
      · simpa [outside] using kept.redirect
      · exact fun slot call waiting => agrees _ written slot call waiting
  | @returns frame inside =>
      refine stacks_kept_sysret kept inside ?_
      simpa [RspWriteAgrees, rspWritten, running, inside] using agrees

theorem stacks_kept_step (machine : Machine) (action : Action) (kept : StacksKept machine)
    (agrees : RspWriteAgrees machine action) : StacksKept (machine.step action).1 :=
  step_rule (fun result => StacksKept result.1) kept
    fun running going => stacks_kept_perform kept running going agrees

theorem step_returns_user_rsp (machine : Machine) (action : Action) (event : Event)
    (kept : StacksKept machine) (emitted : (machine.step action).2 = some event) :
    UserRspReturned event := by
  have shape := step_case machine action
  generalize machine.step action = result at shape emitted
  cases shape with
  | @switches _ before source evolves others =>
      obtain ⟨slot, switchedOut, loaded, rfl⟩ := schedule_emits emitted
      trivial
  | reaps found present => cases emitted; trivial
  | installs chosen => cases emitted; trivial
  | returns inside => exact sysret_event kept inside event emitted
  | _ => cases emitted

/-- In every run in which each write to the global agrees with the calls still
suspended, every system call returns on its own stack. -/
theorem user_rsp_returned (actions : List Action)
    (agrees : kernelSystem.StepsMeet RspWriteAgrees kernelSystem.init actions) :
    ∀ event ∈ kernelSystem.traceFrom kernelSystem.init actions, UserRspReturned event :=
  EventSystem.trace_satisfies StacksKept stacks_kept_step
    (fun machine action event kept _ emitted =>
      step_returns_user_rsp machine action event kept emitted) stacks_kept_boot agrees

/-- A user task opens a pipe, forks and blocks reading the pipe; the child,
whose stack pointer is `childRsp` by then, writes a byte, yields, and the
parent's call returns. -/
def blockedReader (childRsp : Nat) : List Action :=
  [.spawnGather (.user 0x10000 0x19000 0x20000 0 0x7000), .spawnChoose, .spawnInstall, .schedule,
    .syscallEntry, .pipe 0x6100, .sysret,
    .syscallEntry, .spawnGather (.fork 0x30000 0x39000 0x40000 0x7000), .spawnChoose,
    .spawnInstall, .sysret,
    .syscallEntry, .readPipe 3 1, .blockOnPipe 0, .schedule,
    .userStack childRsp, .syscallEntry, .writePipe 4 [65], .sysret,
    .syscallEntry, .schedule,
    .readPipe 3 1, .sysret]

/-- The parent's read returns on the stack of the child. -/
theorem user_rsp_of_the_other_task_loaded :
    ¬∀ actions : List Action,
      ∀ event ∈ kernelSystem.traceFrom kernelSystem.init actions, UserRspReturned event := by
  intro returned
  have wrong := returned (blockedReader 0x6000)
    (.sysret ⟨1, by decide⟩ 0x7000 0x6000) (by decide +kernel)
  simp [UserRspReturned] at wrong

/-- With equal stack pointers the same interleaving is admissible. -/
theorem user_rsp_returned_on_equal_stacks :
    kernelSystem.StepsMeet RspWriteAgrees kernelSystem.init (blockedReader 0x7000) ∧
      ∀ event ∈ kernelSystem.traceFrom kernelSystem.init (blockedReader 0x7000),
        UserRspReturned event := by
  have agrees : kernelSystem.StepsMeet RspWriteAgrees kernelSystem.init
      (blockedReader 0x7000) := by
    decide +kernel
  exact ⟨agrees, user_rsp_returned _ agrees⟩

end Ferrugem.SyscallReturnStack
