import Ferrugem.KernelMachine
import Ferrugem.KernelEvolution

/-!
# What one step of the machine can do

`StepCase` lists every way a step changes the machine, with the guard under
which it does. The invariants about zombies, about lost exit statuses, about
`FS.base`, about the user stack pointer and about wait records are derived from
this list, so the operations of the scheduler are not unfolded again.
-/

namespace Ferrugem.TaskLifecycle

open Ferrugem.PipePoolModel Ferrugem.ProcessModel Ferrugem.SchedulerModel
open Ferrugem.DescriptorSyscalls Ferrugem.KernelMachine Ferrugem.KernelEvolution

set_option autoImplicit false

def stirringKernel (kernel : Kernel) : Action → Option Kernel
  | .wakeChildWaiters exitingPid parentPid => some (kernel.wakeChildWaiters exitingPid parentPid)
  | .signalParent parentPid => some (kernel.signalParent parentPid sigchld)
  | .wakeClosedPipeReaders => some kernel.wakeClosedPipeReaders
  | .readPipe fd length => some (sysReadPipe kernel fd length).1
  | .writePipe fd data => some (sysWritePipe kernel fd data).1
  | .raiseSignal targetPid sig => some (sysRaise kernel targetPid sig)
  | .killTask slot => some (kernel.killTask slot).1
  | _ => none

def descriptorKernel (kernel : Kernel) : Action → Option Kernel
  | .pipe fdsPtr => some (sysPipe kernel fdsPtr).1
  | .socketpair svPtr => some (sysSocketpair kernel svPtr).1
  | .dup fd => some (sysDup kernel fd).1
  | .dup2 oldFd newFd => some (sysDup2 kernel oldFd newFd).1
  | .fcntl fd cmd => some (sysFcntl kernel fd cmd).1
  | .close fd => some (sysClose kernel fd).1
  | _ => none

theorem stirring_kernel_stirred {kernel after : Kernel} {action : Action}
    (stirring : stirringKernel kernel action = some after) : KernelStirred kernel after := by
  cases action <;> simp only [stirringKernel, Option.some.injEq, reduceCtorEq] at stirring <;>
    subst stirring
  · exact wake_child_waiters_stirred kernel _ _
  · exact signal_parent_stirred kernel _ _
  · exact wake_closed_pipe_readers_stirred kernel
  · exact sys_read_pipe_stirred kernel _ _
  · exact sys_write_pipe_stirred kernel _ _
  · exact sys_raise_stirred kernel _ _
  · exact kill_task_stirred kernel _

theorem descriptor_kernel_spares {kernel after : Kernel} {action : Action}
    (call : descriptorKernel kernel action = some after) : KernelSpares kernel after := by
  cases action <;> simp only [descriptorKernel, Option.some.injEq, reduceCtorEq] at call <;>
    subst call
  · exact sys_pipe_spares kernel _
  · exact sys_socketpair_spares kernel _
  · exact sys_dup_spares kernel _
  · exact sys_dup2_spares kernel _ _
  · exact sys_fcntl_spares kernel _ _
  · exact sys_close_spares kernel _

theorem stirring_perform {machine : Machine} {action : Action} {after : Kernel}
    (stirring : stirringKernel machine.kernel action = some after) :
    machine.perform action = (machine.withKernel after, none) := by
  cases action <;> simp only [stirringKernel, Option.some.injEq, reduceCtorEq] at stirring <;>
    subst stirring <;> rfl

theorem descriptor_perform {machine : Machine} {action : Action} {after : Kernel}
    (call : descriptorKernel machine.kernel action = some after) :
    machine.perform action = (machine.withKernel after, none) := by
  cases action <;> simp only [descriptorKernel, Option.some.injEq, reduceCtorEq] at call <;>
    subst call <;> rfl

inductive QuietSource (machine : Machine) : Action → Kernel → Prop where
  | stirs {action : Action} {after : Kernel} (stirred : KernelStirred machine.kernel after) :
      QuietSource machine action after
  | calls {action : Action} {after : Kernel}
      (call : descriptorKernel machine.kernel action = some after) :
      QuietSource machine action after
  | delivers (enabled : machine.irqsOn = true) :
      QuietSource machine .tick machine.tickCounted.kernel

/-- A task that starts to wait, in a kernel whose wait records are `base`'s. -/
def blockedKernel (base : Kernel) (task : Task) (waitingForPid : Nat) : Kernel :=
  base.setTask base.current { task with waitingForPid := waitingForPid, state := .blocked }

def noteBlocked (machine : Machine) (reason : WaitReason) (after : Kernel) : Machine :=
  { machine.withKernel after with
    blockedOn := Function.update machine.blockedOn machine.kernel.current (some reason) }

inductive StepCase (machine : Machine) : Action → Machine × Option Event → Prop where
  | quiet {action : Action} {after : Kernel} (source : QuietSource machine action after)
      (evolves : KernelEvolves machine.kernel after) :
      StepCase machine action (machine.withKernel after, none)
  | switches {action : Action} {before : Machine}
      (source : action = .schedule ∧ before = machine ∨
        action = .tick ∧ before = machine.tickCounted ∧ machine.irqsOn = true)
      (evolves : KernelEvolves machine.kernel before.kernel)
      (others : before = machine.withKernel before.kernel) :
      StepCase machine action before.schedule
  | halts {action : Action} {blockedOn : Slot → Option WaitReason}
      (unchanged : ∀ slot, machine.kernel.tasks slot ≠ none →
        blockedOn slot = machine.blockedOn slot) :
      StepCase machine action ({ machine with halted := true, blockedOn := blockedOn }, none)
  | exits {code : BitVec 32} {task : Task} (present : machine.kernel.currentTask = some task) :
      StepCase machine (.exitMark code)
        (machine.withKernel
          ({ machine.kernel with pool := (task.exit machine.kernel.pool code).1 }.setTask
            machine.kernel.current (task.exit machine.kernel.pool code).2), none)
  | reaps {target : Nat} {noHang : Bool} {slot : Slot} {task : Task}
      (found : machine.kernel.findZombieChild machine.kernel.currentPid target = some slot)
      (present : machine.kernel.tasks slot = some task) :
      StepCase machine (.waitpid target noHang)
        (machine.withKernel { machine.kernel with
            tasks := Function.update machine.kernel.tasks slot none },
          some (.reaped machine.kernel.currentPid task.pid (Kernel.exitStatus task.exitCode)))
  | blocksOnChild {target : Nat} {task : Task}
      (absent : machine.kernel.findZombieChild machine.kernel.currentPid target = none)
      (living : machine.kernel.hasLivingChild machine.kernel.currentPid = true)
      (present : machine.kernel.currentTask = some task) :
      StepCase machine (.waitpid target false)
        (noteBlocked machine .child (blockedKernel machine.kernel task target), none)
  | blocksOnTty {task : Task} (present : machine.kernel.currentTask = some task) :
      StepCase machine (.blockOnTty false)
        (noteBlocked machine .tty (blockedKernel
          { machine.kernel with ttyWaiter := some machine.kernel.current }
          task task.waitingForPid), none)
  | blocksOnPipe {index : PipeIndex} {task : Task}
      (must : machine.kernel.mustBlockOnPipe index.val = true)
      (present : machine.kernel.currentTask = some task) :
      StepCase machine (.blockOnPipe index.val)
        (noteBlocked machine (.pipe index.val) (blockedKernel
          { machine.kernel with
            pipeWaiters := Function.update machine.kernel.pipeWaiters index
              (some machine.kernel.current) }
          task task.waitingForPid), none)
  | gathers {action : Action} {spawning : Option Spawning}
      (unchosen : spawning.bind Spawning.slot = none) :
      StepCase machine action (machine.setSpawning spawning, none)
  | chooses {slot : Slot} {request : Kernel.SpawnRequest} {userRsp : Nat}
      (gathered : machine.running.spawning = some (.gathered request userRsp))
      (vacant : machine.kernel.firstVacant = some slot) :
      StepCase machine .spawnChoose
        (machine.setSpawning (some (.chosen slot request userRsp)), none)
  | installs {slot : Slot} {request : Kernel.SpawnRequest} {userRsp : Nat}
      (chosen : machine.running.spawning = some (.chosen slot request userRsp)) :
      StepCase machine .spawnInstall
        ({ machine.setSpawning none with
            kernel := machine.kernel.install slot request
            savedStacks := Function.update machine.savedStacks slot
              (.fresh (Context.entering userRsp) request.child.isUser) },
          some (.installed slot machine.kernel.current))
  | setsFsBase {value : Nat} :
      StepCase machine (.setFsBase value)
        (machine.withKernel (machine.kernel.setFsBase value), none)
  | writesFsBase {value : Nat} :
      StepCase machine (.writeFsBase value) ({ machine with fsBase := value }, none)
  | execs {newIp newSp newPt heapStart : Nat} {frame : SyscallFrame}
      (inside : machine.running.syscall = some frame) :
      StepCase machine (.execve newIp newSp newPt heapStart)
        (machine.execve newIp newSp newPt heapStart, none)
  | movesStack {rsp : Nat} (outside : machine.running.syscall = none) :
      StepCase machine (.userStack rsp)
        ({ machine with running := { machine.running with userRsp := rsp } }, none)
  | enters (outside : machine.running.syscall = none)
      (user : machine.kernel.currentTask.any Task.isUser = true) :
      StepCase machine .syscallEntry
        ({ machine with
            irqsOn := false
            syscallUserRsp := machine.running.userRsp
            running := { machine.running with
              syscall := some { entryRsp := machine.running.userRsp, execRsp := none } } }, none)
  | returns {frame : SyscallFrame} (inside : machine.running.syscall = some frame) :
      StepCase machine .sysret machine.sysret

theorem idle_case (machine : Machine) (action : Action) :
    StepCase machine action (machine, none) :=
  .quiet (.stirs (KernelStirred.refl machine.kernel)) (KernelEvolves.refl machine.kernel)

theorem tick_counted_evolves (machine : Machine) :
    KernelEvolves machine.kernel machine.tickCounted.kernel := by
  have counted : KernelEvolves machine.kernel
      { machine.kernel with tickCount := (machine.kernel.tickCount + 1) % 2 ^ 64 } :=
    KernelEvolves.of_tasks_eq rfl rfl rfl rfl rfl
  unfold Machine.tickCounted
  dsimp only [Machine.withKernel]
  split_ifs
  · exact counted.trans (deliver_all_signals_evolves _)
  · exact counted

theorem tick_case (machine : Machine) (enabled : machine.irqsOn = true) :
    StepCase machine .tick machine.tick := by
  unfold Machine.tick
  split_ifs
  · exact .switches (.inr ⟨rfl, rfl, enabled⟩) (tick_counted_evolves machine) rfl
  · exact .quiet (.delivers enabled) (tick_counted_evolves machine)

theorem waitpid_case (machine : Machine) (target : Nat) (noHang : Bool) :
    StepCase machine (.waitpid target noHang) (machine.waitpid target noHang) := by
  unfold Machine.waitpid Kernel.waitpid
  cases found : machine.kernel.findZombieChild machine.kernel.currentPid target with
  | some slot =>
      cases present : machine.kernel.tasks slot with
      | none =>
          simp only [found, present, Option.map_none]
          exact .halts fun _ _ => rfl
      | some task =>
          simp only [found, present, Option.map_some]
          exact .reaps found present
  | none =>
      by_cases living : machine.kernel.hasLivingChild machine.kernel.currentPid = true
      · cases noHang with
        | true =>
            simp only [found, living, Bool.not_true, Bool.false_eq_true, if_false, if_true]
            exact idle_case machine _
        | false =>
            cases present : machine.kernel.currentTask with
            | none =>
                simp only [found, living, Bool.not_true, Bool.false_eq_true, if_false,
                  Kernel.blockCurrent, present, Option.map_none]
                exact .halts fun _ _ => rfl
            | some task =>
                simp only [found, living, Bool.not_true, Bool.false_eq_true, if_false,
                  Kernel.blockCurrent, present, Option.map_some]
                exact .blocksOnChild found living present
      · simp only [found, living, Bool.not_false, if_true]
        exact idle_case machine _

theorem note_empty_current {machine : Machine} {reason : WaitReason}
    (empty : machine.kernel.currentTask = none) (slot : Slot)
    (occupied : machine.kernel.tasks slot ≠ none) :
    Function.update machine.blockedOn machine.kernel.current (some reason) slot =
      machine.blockedOn slot := by
  refine Function.update_of_ne ?_ _ _
  rintro rfl
  exact occupied empty

theorem block_on_tty_eq {machine : Machine} {task : Task}
    (present : machine.kernel.currentTask = some task) :
    machine.blockOnTty false = noteBlocked machine .tty (blockedKernel
      { machine.kernel with ttyWaiter := some machine.kernel.current }
      task task.waitingForPid) := by
  unfold Kernel.currentTask at present
  simp [Machine.blockOnTty, Machine.blocking, Kernel.blockOnTty, Kernel.blockCurrent,
    Kernel.currentTask, present, Machine.withKernelOrHalt, noteBlocked, blockedKernel]

theorem block_on_tty_case (machine : Machine) (hasInput : Bool) :
    StepCase machine (.blockOnTty hasInput) (machine.blockOnTty hasInput, none) := by
  cases hasInput with
  | true => exact idle_case machine _
  | false =>
      cases present : machine.kernel.currentTask with
      | none =>
          have empty : machine.kernel.blockOnTty false = none := by
            unfold Kernel.currentTask at present
            simp [Kernel.blockOnTty, Kernel.blockCurrent, Kernel.currentTask, present]
          simp only [Machine.blockOnTty, empty, Bool.false_eq_true, if_false]
          exact .halts (note_empty_current present)
      | some task =>
          rw [block_on_tty_eq present]
          exact .blocksOnTty present

theorem must_block_bound {kernel : Kernel} {idx : Nat}
    (must : kernel.mustBlockOnPipe idx = true) : idx < maxPipes := by
  by_contra outside
  simp [Kernel.mustBlockOnPipe, pipeWriteOpen, outside] at must

theorem block_on_pipe_eq {machine : Machine} {index : PipeIndex} {task : Task}
    (must : machine.kernel.mustBlockOnPipe index.val = true)
    (present : machine.kernel.currentTask = some task) :
    machine.blockOnPipe index.val = noteBlocked machine (.pipe index.val) (blockedKernel
      { machine.kernel with
        pipeWaiters := Function.update machine.kernel.pipeWaiters index
          (some machine.kernel.current) }
      task task.waitingForPid) := by
  unfold Kernel.currentTask at present
  simp [Machine.blockOnPipe, must, Machine.blocking, Kernel.blockOnPipe, Kernel.blockCurrent,
    Kernel.currentTask, present, Machine.withKernelOrHalt, noteBlocked, blockedKernel]

theorem block_on_pipe_case (machine : Machine) (idx : Nat) :
    StepCase machine (.blockOnPipe idx) (machine.blockOnPipe idx, none) := by
  by_cases must : machine.kernel.mustBlockOnPipe idx = true
  · have bound := must_block_bound must
    cases present : machine.kernel.currentTask with
    | none =>
        have empty : machine.kernel.blockOnPipe idx = none := by
          unfold Kernel.currentTask at present
          simp [Kernel.blockOnPipe, must, bound, Kernel.blockCurrent, Kernel.currentTask, present]
        simp only [Machine.blockOnPipe, must, if_true, empty]
        exact .halts (note_empty_current present)
    | some task =>
        have blocks := @block_on_pipe_eq machine ⟨idx, bound⟩ task must present
        dsimp only at blocks
        rw [blocks]
        exact @StepCase.blocksOnPipe machine ⟨idx, bound⟩ task must present
  · simp only [Machine.blockOnPipe, must]
    exact idle_case machine _

theorem spawn_choose_case (machine : Machine) :
    StepCase machine .spawnChoose (machine.spawnChoose, none) := by
  unfold Machine.spawnChoose
  split
  · rename_i gathered
    cases vacant : machine.kernel.firstVacant with
    | none => exact .gathers rfl
    | some slot => exact .chooses gathered vacant
  · exact idle_case machine _

theorem spawn_gather_case (machine : Machine) (kind : Machine.SpawnKind) :
    StepCase machine (.spawnGather kind) (machine.spawnGather kind, none) := by
  refine .gathers ?_
  cases machine.spawnRequest kind <;> rfl

theorem perform_case (machine : Machine) (action : Action) :
    StepCase machine action (machine.perform action) := by
  cases stirring : stirringKernel machine.kernel action with
  | some after =>
      rw [stirring_perform stirring]
      have stirred := stirring_kernel_stirred stirring
      exact .quiet (.stirs stirred) stirred.evolves
  | none =>
    cases call : descriptorKernel machine.kernel action with
    | some after =>
      rw [descriptor_perform call]
      exact .quiet (.calls call) (descriptor_kernel_spares call).toKernelEvolves
    | none =>
      cases action <;> simp only [stirringKernel, descriptorKernel, reduceCtorEq] at stirring call <;>
        simp only [Machine.perform]
      case tick =>
        split_ifs with enabled
        · exact tick_case machine enabled
        · exact idle_case machine _
      case ttyInput =>
        have stirred := wake_tty_waiter_stirred machine.kernel
        split_ifs
        · exact .quiet (.stirs stirred) stirred.evolves
        · exact idle_case machine _
      case schedule =>
        exact .switches (.inl ⟨rfl, rfl⟩) (KernelEvolves.refl _) rfl
      case exitMark code =>
        unfold Kernel.exitMark
        cases present : machine.kernel.currentTask with
        | none => exact idle_case machine _
        | some task => exact .exits present
      case waitpid target noHang => exact waitpid_case machine target noHang
      case blockOnTty hasInput => exact block_on_tty_case machine hasInput
      case blockOnPipe idx => exact block_on_pipe_case machine idx
      case spawnGather kind => exact spawn_gather_case machine kind
      case spawnChoose => exact spawn_choose_case machine
      case spawnInstall =>
        unfold Machine.spawnInstall
        split
        · rename_i chosen
          exact .installs chosen
        · exact idle_case machine _
      case setFsBase value => exact .setsFsBase
      case writeFsBase value => exact .writesFsBase
      case execve newIp newSp newPt heapStart =>
        cases inside : machine.running.syscall with
        | none =>
            simp only [Machine.execve, inside]
            exact idle_case machine _
        | some frame => exact .execs inside
      case userStack rsp =>
        unfold Machine.userStack
        split
        · exact idle_case machine _
        · rename_i outside
          exact .movesStack outside
      case syscallEntry =>
        unfold Machine.syscallEntry
        split
        · rename_i task outside present
          split_ifs with user
          · exact .enters outside (by simpa [present] using user)
          · exact idle_case machine _
        · exact idle_case machine _
      case sysret =>
        cases inside : machine.running.syscall with
        | none =>
            simp only [Machine.sysret, inside]
            exact idle_case machine _
        | some frame => exact .returns inside

theorem step_case (machine : Machine) (action : Action) :
    StepCase machine action (machine.step action) := by
  unfold Machine.step
  split_ifs
  · exact idle_case machine action
  · exact idle_case machine action
  · exact perform_case machine action

theorem step_of_running {machine : Machine} (action : Action) (running : machine.halted = false)
    (free : machine.returning = false) : machine.step action = machine.perform action := by
  unfold Machine.step
  rw [running, free]
  simp

theorem step_of_stopped {machine : Machine} {action : Action}
    (stopped : machine.halted = true ∨ machine.returning = true) (stays : action ≠ .sysret) :
    machine.step action = (machine, none) := by
  unfold Machine.step
  rcases stopped with halted | returning
  · rw [if_pos halted]
  · rw [@if_pos (_ ∧ _) _ ⟨returning, stays⟩, ite_self]

/-- A step is idle, or it performs its action on a machine that is running
and, unless it returns from a call, has no redirect pending. -/
theorem step_rule {machine : Machine} {action : Action} (Holds : Machine × Option Event → Prop)
    (idle : Holds (machine, none))
    (performs : machine.halted = false → machine.returning = false ∨ action = .sysret →
      Holds (machine.perform action)) : Holds (machine.step action) := by
  unfold Machine.step
  split_ifs with halted blocked
  · exact idle
  · exact idle
  · refine performs (by simpa using halted) ?_
    by_cases leaving : action = .sysret
    · exact .inr leaving
    · exact .inl (by simpa [leaving] using blocked)

theorem sysret_kernel (machine : Machine) : machine.sysret.1.kernel = machine.kernel := by
  unfold Machine.sysret Machine.applyExecRedirect
  split
  · dsimp only
    split <;> rfl
  · rfl

inductive SwitchCase (machine : Machine) : Machine × Option Event → Prop where
  | stays : SwitchCase machine (machine, none)
  | halts : SwitchCase machine ({ machine with halted := true }, none)
  | switched {next : Slot} {prevTask nextTask : Task}
      (picked : machine.kernel.pickNext = next) (different : next ≠ machine.kernel.current)
      (incoming : machine.kernel.tasks next = some nextTask)
      (outgoing : machine.kernel.tasks machine.kernel.current = some prevTask) :
      SwitchCase machine
        ((machine.switchOut next prevTask nextTask).resume next (machine.savedStacks next))

theorem schedule_case (machine : Machine) : SwitchCase machine machine.schedule := by
  unfold Machine.schedule
  dsimp only
  split_ifs with same
  · exact .stays
  · split
    · rename_i nextTask prevTask incoming outgoing
      exact .switched rfl same incoming outgoing
    · exact .halts

/-- `resume` enters the saved context and changes nothing else but the
interrupt flag, `FS.base` and, on an empty slot, the halt flag. -/
theorem resume_keeps (machine : Machine) (slot : Slot) (saved : SavedStack) :
    ∃ irqsOn fsBase halted, (machine.resume slot saved).1 =
      { machine with
        running := saved.context
        irqsOn := irqsOn
        fsBase := fsBase
        halted := halted } := by
  cases saved with
  | fresh context irqsOn => exact ⟨irqsOn, machine.fsBase, machine.halted, rfl⟩
  | suspended frame =>
      simp only [Machine.resume]
      split
      · exact ⟨_, _, _, rfl⟩
      · exact ⟨_, _, _, rfl⟩

theorem resume_kernel (machine : Machine) (slot : Slot) (saved : SavedStack) :
    (machine.resume slot saved).1.kernel = machine.kernel := by
  obtain ⟨irqsOn, fsBase, halted, shape⟩ := resume_keeps machine slot saved
  rw [shape]

theorem schedule_pool (machine : Machine) :
    machine.schedule.1.kernel.pool = machine.kernel.pool := by
  have shape := schedule_case machine
  generalize machine.schedule = result at shape ⊢
  cases shape with
  | stays => rfl
  | halts => rfl
  | switched picked different incoming outgoing =>
      rw [resume_kernel]
      rfl

theorem resume_saved_stacks (machine : Machine) (slot : Slot) (saved : SavedStack) :
    (machine.resume slot saved).1.savedStacks = machine.savedStacks := by
  obtain ⟨irqsOn, fsBase, halted, shape⟩ := resume_keeps machine slot saved
  rw [shape]

theorem resume_event {machine : Machine} {slot : Slot} {frame : ScheduleFrame} :
    (machine.resume slot (.suspended frame)).2 =
      some (.resumed slot frame.fsAtSwitch
        ((machine.kernel.tasks frame.next).map Task.fsBase)) := by
  simp only [Machine.resume]
  split
  · rename_i task present
    rw [present]
    rfl
  · rename_i empty
    rw [empty]
    rfl

theorem schedule_emits {machine : Machine} {event : Event}
    (emitted : machine.schedule.2 = some event) :
    ∃ slot switchedOut loaded, event = .resumed slot switchedOut loaded := by
  have shape := schedule_case machine
  generalize machine.schedule = result at shape emitted
  cases shape with
  | stays => cases emitted
  | halts => cases emitted
  | @switched next _ _ _ _ _ _ =>
      cases saved : machine.savedStacks next with
      | fresh context irqsOn =>
          rw [saved] at emitted
          cases emitted
      | suspended frame =>
          rw [saved, resume_event] at emitted
          cases emitted
          exact ⟨_, _, _, rfl⟩

/-- The task table after a switch: only the outgoing task's `FS.base` is new. -/
theorem switch_out_tasks {machine : Machine} {next : Slot} {prevTask nextTask : Task}
    (outgoing : machine.kernel.tasks machine.kernel.current = some prevTask) (slot : Slot) :
    Option.Rel TaskEvolves (machine.kernel.tasks slot)
      ((machine.switchOut next prevTask nextTask).kernel.tasks slot) := by
  refine set_task_cases (fun other task => Option.Rel TaskEvolves (machine.kernel.tasks other) task)
    machine.kernel machine.kernel.current _ ?_
    (fun _ _ => option_rel_refl TaskEvolves.refl _) slot
  rw [outgoing]
  exact .some ⟨rfl, rfl, id, fun _ => rfl, fun waiting => ⟨waiting, rfl⟩⟩

theorem switch_out_other {machine : Machine} {next : Slot} {prevTask nextTask : Task}
    {slot : Slot} (different : slot ≠ machine.kernel.current) :
    (machine.switchOut next prevTask nextTask).kernel.tasks slot = machine.kernel.tasks slot :=
  set_task_other machine.kernel _ different

theorem switch_out_current {machine : Machine} {next : Slot} {prevTask nextTask : Task} :
    (machine.switchOut next prevTask nextTask).kernel.tasks machine.kernel.current =
      some { prevTask with fsBase := machine.fsBase } :=
  set_task_same machine.kernel _ _

end Ferrugem.TaskLifecycle
