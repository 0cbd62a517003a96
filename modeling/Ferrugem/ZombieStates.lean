import Ferrugem.PreemptedCalls

/-!
# Terminated tasks

A task becomes a zombie by `exit_current` or by a lethal signal, and then
waits for its parent. `ZombieStep` lists what a move can make of a zombie. The
delivery of signals may terminate the running task, which goes on executing
until the next rescheduling tick, and the three blocking sections do not look
at the state they overwrite. A wake-up tests the state and stores the new one in
two statements, and a tick between them may terminate the task. Either way a
zombie becomes runnable again.
-/

namespace Ferrugem.ZombieStates

open Ferrugem.ProcessModel Ferrugem.SchedulerModel Ferrugem.KernelMachine
open Ferrugem.KernelEvolution Ferrugem.TaskLifecycle Ferrugem.PreemptedCalls

set_option autoImplicit false

/-- The section is one of the three blocking ones and runs to its end. -/
def blocksCurrent (machine : Machine) (action : Action) : Bool :=
  !machine.halted && !machine.returning &&
    match action with
    | .waitpid target noHang =>
        (machine.kernel.findZombieChild machine.kernel.currentPid target).isNone &&
          machine.kernel.hasLivingChild machine.kernel.currentPid && !noHang
    | .blockOnTty hasInput => !hasInput
    | .blockOnPipe idx => machine.kernel.mustBlockOnPipe idx
    | _ => false

def blocks (machine : Machine) : Move → Bool
  | .whole action => atRest machine && blocksCurrent machine action
  | _ => false

def stageTaken (machine : Machine) : Move → Option Stage
  | .advances =>
      if machine.halted then none
      else
        match machine.running.progress with
        | .statements (stage :: _) => some stage
        | _ => none
  | _ => none

def storesReady (machine : Machine) (move : Move) : Option Slot :=
  match stageTaken machine move with
  | some (.storeReady slot) => some slot
  | _ => none

def storesExitCode (machine : Machine) (move : Move) : Bool :=
  match stageTaken machine move with
  | some (.storeExitCode _) => true
  | _ => false

/-- What a move makes of a zombie in a slot: the record stays, or the task itself
terminates again or blocks, or a wake-up comes too late, or the parent reaps it,
or a creation takes the slot. -/
inductive ZombieStep (machine : Machine) (move : Move) (slot : Slot) (dead : Task) :
    Option Task → Option Event → Prop where
  | kept {later : Task} {event : Option Event} (pid : later.pid = dead.pid)
      (ppid : later.ppid = dead.ppid) (exitCode : later.exitCode = dead.exitCode)
      (zombie : later.state = .zombie) : ZombieStep machine move slot dead (some later) event
  | exitsAgain {later : Task} (exits : storesExitCode machine move = true)
      (current : slot = machine.kernel.current) (pid : later.pid = dead.pid)
      (ppid : later.ppid = dead.ppid) (zombie : later.state = .zombie) :
      ZombieStep machine move slot dead (some later) none
  | blocks {later : Task} (blocks : blocks machine move = true)
      (current : slot = machine.kernel.current) (pid : later.pid = dead.pid)
      (state : later.state = .blocked) : ZombieStep machine move slot dead (some later) none
  | revives {later : Task} (stores : storesReady machine move = some slot)
      (state : later.state = .ready) : ZombieStep machine move slot dead (some later) none
  | reaped {target : Nat} {noHang : Bool} (call : move = .whole (.waitpid target noHang))
      (parent : dead.ppid = machine.kernel.currentPid) :
      ZombieStep machine move slot dead none
        (some (.reaped machine.kernel.currentPid dead.pid (Kernel.exitStatus dead.exitCode)))
  | replaced {later : Task} :
      ZombieStep machine move slot dead (some later)
        (some (.installed slot machine.kernel.current))

section

variable {machine : Machine} {move : Move} {slot : Slot} {dead : Task} {event : Option Event}

theorem zombie_step_same {after : Option Task} (zombie : dead.state = .zombie)
    (same : after = some dead) : ZombieStep machine move slot dead after event := by
  subst same
  exact .kept rfl rfl rfl zombie

theorem zombie_step_evolves {after : Kernel} (present : machine.kernel.tasks slot = some dead)
    (zombie : dead.state = .zombie) (evolves : KernelEvolves machine.kernel after) :
    ZombieStep machine move slot dead (after.tasks slot) event := by
  obtain ⟨later, laterPresent, change⟩ := evolves.task_after present
  rw [laterPresent]
  exact .kept change.pid change.ppid (change.exitCode zombie) (change.zombie zombie)

theorem zombie_step_modify {change : Task → Task}
    (present : machine.kernel.tasks slot = some dead) (zombie : dead.state = .zombie)
    (pid : ∀ task, (change task).pid = task.pid) (ppid : ∀ task, (change task).ppid = task.ppid)
    (exitCode : ∀ task, (change task).exitCode = task.exitCode)
    (state : ∀ task, (change task).state = task.state) :
    ZombieStep machine move slot dead ((machine.kernel.modifyCurrent change).tasks slot)
      event := by
  by_cases current : slot = machine.kernel.current
  · subst current
    unfold Kernel.modifyCurrent Kernel.currentTask
    rw [present]
    dsimp only
    rw [set_task_same]
    exact .kept (pid dead) (ppid dead) (exitCode dead) ((state dead).trans zombie)
  · exact zombie_step_same zombie ((modify_current_other _ _ current).trans present)

theorem zombie_step_schedule {before : Machine} (present : machine.kernel.tasks slot = some dead)
    (zombie : dead.state = .zombie) (evolves : KernelEvolves machine.kernel before.kernel) :
    ZombieStep machine move slot dead (before.schedule.1.kernel.tasks slot)
      before.schedule.2 := by
  have shape := schedule_case before
  generalize before.schedule = result at shape ⊢
  cases shape with
  | stays => exact zombie_step_evolves present zombie evolves
  | halts => exact zombie_step_evolves present zombie evolves
  | @switched next prevTask nextTask picked different incoming outgoing =>
      rw [resume_kernel]
      obtain ⟨later, laterPresent, first⟩ := evolves.task_after present
      have second := @switch_out_tasks before next prevTask nextTask outgoing slot
      rw [laterPresent] at second
      generalize (before.switchOut next prevTask nextTask).kernel.tasks slot = after at second
      cases second with
      | some second =>
          have both := first.trans second
          exact .kept both.pid both.ppid (both.exitCode zombie) (both.zombie zombie)

/-- The blocking sections write the current slot of `base`, which differs from
the machine's kernel in its wait records only. -/
theorem zombie_step_blocks {base : Kernel} {task : Task} {waitingForPid : Nat}
    (present : machine.kernel.tasks slot = some dead) (zombie : dead.state = .zombie)
    (blocks : blocks machine move = true)
    (running : machine.kernel.currentTask = some task) (tasks : base.tasks = machine.kernel.tasks)
    (current : base.current = machine.kernel.current) :
    ZombieStep machine move slot dead ((blockedKernel base task waitingForPid).tasks slot)
      none := by
  unfold blockedKernel
  by_cases same : slot = machine.kernel.current
  · subst same
    have own : task = dead := Option.some.inj (running.symm.trans present)
    subst own
    rw [current, set_task_same]
    exact .blocks blocks rfl rfl rfl
  · rw [set_task_other base _ (by rw [current]; exact same), tasks]
    exact zombie_step_same zombie present

theorem found_zombie_child {kernel : Kernel} {parentPid target : Nat} {found : Slot} {task : Task}
    (search : kernel.findZombieChild parentPid target = some found)
    (present : kernel.tasks found = some task) :
    Kernel.isZombieChild parentPid target task = true := by
  have matched := List.find?_some search
  rwa [present, Option.any_some] at matched

theorem zombie_step_whole {action : Action} (present : machine.kernel.tasks slot = some dead)
    (zombie : dead.state = .zombie) (running : machine.halted = false)
    (going : machine.returning = false ∨ action = .sysret)
    (taken : isInterrupt action = true ∨ staysWhole action = true ∧ atRest machine = true) :
    ZombieStep machine (.whole action) slot dead
      ((machine.perform action).1.kernel.tasks slot) (machine.perform action).2 := by
  have shape := perform_case machine action
  generalize machine.perform action = result at shape ⊢
  cases shape with
  | quiet origin evolves => exact zombie_step_evolves present zombie evolves
  | switches source evolves others => exact zombie_step_schedule present zombie evolves
  | halts => exact zombie_step_same zombie present
  | exits outgoing =>
      rcases taken with interrupt | ⟨stays, -⟩
      · exact absurd interrupt Bool.false_ne_true
      · exact absurd stays Bool.false_ne_true
  | @reaps target noHang reapedSlot task found reaping =>
      by_cases cleared : slot = reapedSlot
      · subst cleared
        have own : task = dead := Option.some.inj (reaping.symm.trans present)
        subst own
        have child := found_zombie_child found reaping
        simp only [Kernel.isZombieChild, Bool.and_eq_true, beq_iff_eq] at child
        simp only [Machine.withKernel, Function.update_self]
        exact .reaped rfl child.1.2
      · refine zombie_step_same zombie ?_
        simpa only [Machine.withKernel, Function.update_of_ne cleared] using present
  | blocksOnChild absent living outgoing =>
      have free : machine.returning = false := going.resolve_right (by simp)
      obtain ⟨-, rests⟩ := taken.resolve_left Bool.false_ne_true
      exact zombie_step_blocks present zombie
        (by simp [blocks, rests, blocksCurrent, running, free, absent, living]) outgoing rfl rfl
  | blocksOnTty outgoing =>
      have free : machine.returning = false := going.resolve_right (by simp)
      obtain ⟨-, rests⟩ := taken.resolve_left Bool.false_ne_true
      exact zombie_step_blocks present zombie
        (by simp [blocks, rests, blocksCurrent, running, free]) outgoing rfl rfl
  | blocksOnPipe must outgoing =>
      have free : machine.returning = false := going.resolve_right (by simp)
      obtain ⟨-, rests⟩ := taken.resolve_left Bool.false_ne_true
      exact zombie_step_blocks present zombie
        (by simp [blocks, rests, blocksCurrent, running, free, must]) outgoing rfl rfl
  | gathers unchosen => exact zombie_step_same zombie present
  | chooses gathered vacant => exact zombie_step_same zombie present
  | installs chosen =>
      rcases taken with interrupt | ⟨stays, -⟩
      · exact absurd interrupt Bool.false_ne_true
      · exact absurd stays Bool.false_ne_true
  | setsFsBase =>
      exact zombie_step_modify present zombie (fun _ => rfl) (fun _ => rfl) (fun _ => rfl)
        (fun _ => rfl)
  | writesFsBase => exact zombie_step_same zombie present
  | execs inside =>
      simp only [Machine.execve, inside]
      exact zombie_step_modify present zombie (fun _ => rfl) (fun _ => rfl) (fun _ => rfl)
        (fun _ => rfl)
  | movesStack outside => exact zombie_step_same zombie present
  | enters outside user => exact zombie_step_same zombie present
  | returns inside =>
      refine zombie_step_same zombie ?_
      rw [sysret_kernel]
      exact present

theorem stage_taken_eq {stage : Stage} {rest : List Stage} (running : machine.halted = false)
    (left : machine.running.progress = .statements (stage :: rest)) :
    stageTaken machine .advances = some stage := by
  simp [stageTaken, running, left]

theorem zombie_step_stage {stage : Stage} {rest : List Stage}
    (present : machine.kernel.tasks slot = some dead) (zombie : dead.state = .zombie)
    (running : machine.halted = false)
    (left : machine.running.progress = .statements (stage :: rest)) :
    ZombieStep machine .advances slot dead ((effect machine.kernel stage).tasks slot) none := by
  have taken := stage_taken_eq running left
  obtain ⟨later, laterPresent, change⟩ :=
    option_rel_after (present ▸ (stage_effect machine.kernel stage).tasks slot)
  rw [laterPresent]
  rcases change.state with same | ⟨stores, ready⟩ | ⟨stores, current, ended⟩
  · rcases change.exitCode with code | ⟨⟨code, stores⟩, current⟩
    · exact .kept change.pid change.ppid code (same.trans zombie)
    · exact .exitsAgain (by simp [storesExitCode, taken, stores]) current change.pid change.ppid
        (same.trans zombie)
  · exact .revives (by simp [storesReady, taken, stores]) ready
  · rcases change.exitCode with code | ⟨⟨code, other⟩, -⟩
    · exact .kept change.pid change.ppid code ended
    · rw [stores] at other
      cases other

theorem zombie_step (present : machine.kernel.tasks slot = some dead)
    (zombie : dead.state = .zombie) :
    ZombieStep machine move slot dead ((step machine move).1.kernel.tasks slot)
      (step machine move).2 := by
  have shape := move_case machine move
  generalize step machine move = result at shape ⊢
  cases shape with
  | idle => exact zombie_step_same zombie present
  | whole running going taken => exact zombie_step_whole present zombie running going taken
  | begins running rests => exact zombie_step_same zombie present
  | switches running left => exact zombie_step_schedule present zombie (KernelEvolves.refl _)
  | runs running left stays => exact zombie_step_stage present zombie running left
  | creates running left earlier =>
      refine zombie_step_same zombie ?_
      exact (congrFun (point_effect_earlier machine.kernel earlier).1 slot).trans present
  | @installs request userRsp target pid running left =>
      by_cases written : slot = target
      · subst written
        simp only [storeTask, withProgress, Machine.withKernel, pointEffect, Function.update_self]
        exact .replaced
      · refine zombie_step_same zombie ?_
        simpa only [storeTask, withProgress, Machine.withKernel, pointEffect,
          Function.update_of_ne written] using present

end

theorem blocks_stays_whole {machine : Machine} {action : Action}
    (blocking : blocksCurrent machine action = true) : staysWhole action = true := by
  cases action <;> first | rfl | simp [blocksCurrent] at blocking

theorem blocks_whole {machine : Machine} {move : Move} (blocking : blocks machine move = true) :
    ∃ action, move = .whole action ∧ blocksCurrent machine action = true ∧
      step machine move = machine.step action := by
  cases move with
  | whole action =>
      simp only [blocks, Bool.and_eq_true] at blocking
      obtain ⟨rests, blocking⟩ := blocking
      refine ⟨action, rfl, blocking, ?_⟩
      simp [step, blocks_stays_whole blocking, rests]
  | begins call => cases blocking
  | advances => cases blocking

def advances (count : Nat) : List Move := List.replicate count .advances

def ticks (count : Nat) : List Move := List.replicate count (.whole .tick)

def forked : List Move :=
  .begins (.spawn (.user 0x10000 0x19000 0x20000 0 0x7000)) :: advances 6 ++
    [.whole .schedule, .begins (.spawn (.fork 0x30000 0x39000 0x40000 0x7000))] ++ advances 23

/-- The task sends itself `SIGINT`, which `sys_kill` does not act on at once, and is
terminated by the fifth tick while it runs. -/
def killedWhileRunning : List Move :=
  forked ++ .begins (.kill 1 sigint) :: advances 4 ++ ticks 5

end Ferrugem.ZombieStates
