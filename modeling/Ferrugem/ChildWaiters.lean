import Ferrugem.TaskLifecycle

/-!
# Parents that wait for a child

`waitpid` looks for a zombie child and blocks in one section with interrupts
off. A child dies in `deliver_all_signals`, inside the timer handler, or in
`exit_current`, which marks the task and then wakes the parent without turning
interrupts off itself. Reached through `SYSCALL` or a fault it runs with
interrupts off and is one section; reached through `INT 0x80` or from a kernel
task it is interruptible, and each of its calls is a section of its own.

`waitTarget slot` is the target of the `waitpid` call in which the task in the
slot last blocked; no transition reads it.
-/

namespace Ferrugem.ChildWaiters

open Ferrugem.PipePoolModel Ferrugem.ProcessModel Ferrugem.SchedulerModel
open Ferrugem.KernelMachine Ferrugem.KernelEvolution Ferrugem.TaskLifecycle

set_option autoImplicit false

structure WaitMachine where
  machine : Machine
  waitTarget : Slot → Nat

inductive WaitAction where
  | exitCurrent (code : BitVec 32)
  | between (action : Action)
  deriving DecidableEq

/-- `exit_current` up to its `schedule()`. -/
def exitKernel (kernel : Kernel) (code : BitVec 32) : Kernel :=
  match kernel.currentTask with
  | some task =>
      (((kernel.exitMark code).wakeChildWaiters task.pid task.ppid).signalParent task.ppid
        sigchld).wakeClosedPipeReaders
  | none => kernel

namespace WaitMachine

def mayExit (state : WaitMachine) : Bool :=
  !state.machine.halted && !state.machine.returning && state.machine.kernel.current != idleSlot

def exitCurrent (state : WaitMachine) (code : BitVec 32) : Machine :=
  if !state.mayExit then state.machine
  else if state.machine.irqsOn then
    state.machine.withKernel (state.machine.kernel.exitMark code)
  else (state.machine.withKernel (exitKernel state.machine.kernel code)).schedule.1

def blockedTarget (state : WaitMachine) : Action → Slot → Nat
  | .waitpid target noHang =>
      match state.machine.kernel.waitpid target noHang with
      | some (_, .blocked) =>
          if state.machine.halted ∨ state.machine.returning then state.waitTarget
          else Function.update state.waitTarget state.machine.kernel.current target
      | _ => state.waitTarget
  | _ => state.waitTarget

def step (state : WaitMachine) : WaitAction → WaitMachine
  | .exitCurrent code => { state with machine := state.exitCurrent code }
  | .between (.exitMark _) => state
  | .between action =>
      { machine := (state.machine.step action).1, waitTarget := state.blockedTarget action }

end WaitMachine

def waitSystem : EventSystem WaitMachine WaitAction Unit where
  init := { machine := bootMachine, waitTarget := fun _ => 0 }
  step := fun state action => (state.step action, none)

def Collectable (parentPid target : Nat) (child : Task) : Prop :=
  child.state = .zombie ∧ child.ppid = parentPid ∧ (target = u64Max ∨ target = child.pid)

/-- The task is blocked by `waitpid`. -/
def AwaitsChild (tasks : Slot → Option Task) (blockedOn : Slot → Option WaitReason) (slot : Slot)
    (task : Task) : Prop :=
  tasks slot = some task ∧ task.state = .blocked ∧ blockedOn slot = some .child

def NoneLost (tasks : Slot → Option Task) (blockedOn : Slot → Option WaitReason)
    (waitTarget : Slot → Nat) : Prop :=
  ∀ slot task, AwaitsChild tasks blockedOn slot task →
    ∀ other child, tasks other = some child → ¬Collectable task.pid (waitTarget slot) child

def NoLostWakeUp (state : WaitMachine) : Prop :=
  NoneLost state.machine.kernel.tasks state.machine.blockedOn state.waitTarget

/-- What the kernel knows of the calls: the field is the target of the call,
and the idle task, which the scan leaves out, is no zombie. -/
structure Recorded (tasks : Slot → Option Task) (blockedOn : Slot → Option WaitReason)
    (waitTarget : Slot → Nat) : Prop where
  target : ∀ slot task, AwaitsChild tasks blockedOn slot task →
    task.waitingForPid = waitTarget slot
  idle : ∀ task, tasks idleSlot = some task → task.state ≠ .zombie

structure Covered (tasks : Slot → Option Task) (blockedOn : Slot → Option WaitReason)
    (waitTarget : Slot → Nat) : Prop where
  recorded : Recorded tasks blockedOn waitTarget
  noneLost : NoneLost tasks blockedOn waitTarget

def Persists (before after : Slot → Option Task) : Prop :=
  ∀ slot task, after slot = some task → task.state = .blocked ∨ task.state = .zombie →
    ∃ prior, before slot = some prior ∧ prior.state = task.state ∧ prior.pid = task.pid ∧
      prior.ppid = task.ppid ∧
      (task.state = .blocked → prior.waitingForPid = task.waitingForPid)

section

variable {before after : Slot → Option Task} {blockedOn reasons : Slot → Option WaitReason}
variable {waitTarget : Slot → Nat}

theorem awaits_before (persists : Persists before after)
    (same : ∀ slot task, after slot = some task → reasons slot = blockedOn slot) {slot : Slot}
    {task : Task} (awaits : AwaitsChild after reasons slot task) :
    ∃ prior, AwaitsChild before blockedOn slot prior ∧ prior.pid = task.pid ∧
      prior.waitingForPid = task.waitingForPid := by
  obtain ⟨present, blocked, reason⟩ := awaits
  obtain ⟨prior, there, state, pid, _, target⟩ := persists slot task present (.inl blocked)
  rw [same slot task present] at reason
  exact ⟨prior, ⟨there, state.trans blocked, reason⟩, pid, target blocked⟩

theorem recorded_persists (recorded : Recorded before blockedOn waitTarget)
    (persists : Persists before after)
    (same : ∀ slot task, after slot = some task → reasons slot = blockedOn slot) :
    Recorded after reasons waitTarget where
  target := by
    intro slot task awaits
    obtain ⟨prior, earlier, _, target⟩ := awaits_before persists same awaits
    exact target.symm.trans (recorded.target slot prior earlier)
  idle := by
    intro task present dead
    obtain ⟨prior, there, state, _⟩ := persists idleSlot task present (.inr dead)
    exact recorded.idle prior there (state.trans dead)

theorem none_lost_persists (noneLost : NoneLost before blockedOn waitTarget)
    (persists : Persists before after)
    (same : ∀ slot task, after slot = some task → reasons slot = blockedOn slot) :
    NoneLost after reasons waitTarget := by
  rintro slot task awaits other child present ⟨dead, parent, wanted⟩
  obtain ⟨prior, earlier, pid, _⟩ := awaits_before persists same awaits
  obtain ⟨old, there, state, oldPid, ppid, _⟩ := persists other child present (.inr dead)
  apply noneLost slot prior earlier other old there
  rw [Collectable, state, oldPid, ppid, pid]
  exact ⟨dead, parent, wanted⟩

theorem covered_persists (covered : Covered before blockedOn waitTarget)
    (persists : Persists before after)
    (same : ∀ slot task, after slot = some task → reasons slot = blockedOn slot) :
    Covered after reasons waitTarget :=
  ⟨recorded_persists covered.recorded persists same,
    none_lost_persists covered.noneLost persists same⟩

end

theorem Persists.refl (tasks : Slot → Option Task) : Persists tasks tasks :=
  fun _ task present _ => ⟨task, present, rfl, rfl, rfl, fun _ => rfl⟩

theorem Persists.trans {first second third : Slot → Option Task} (left : Persists first second)
    (right : Persists second third) : Persists first third := by
  intro slot task present waits
  obtain ⟨middle, there, state, pid, ppid, target⟩ := right slot task present waits
  rw [← state] at waits
  obtain ⟨prior, early, state', pid', ppid', target'⟩ := left slot middle there waits
  refine ⟨prior, early, state'.trans state, pid'.trans pid, ppid'.trans ppid, ?_⟩
  intro blocked
  exact (target' (state.trans blocked)).trans (target blocked)

theorem persists_spares {before after : Kernel} (spares : KernelSpares before after) :
    Persists before.tasks after.tasks := by
  intro slot task present waits
  obtain ⟨prior, there, change⟩ := spares.task_before present
  refine ⟨prior, there, ?_, change.pid.symm, change.ppid.symm, fun blocked =>
    (change.waits blocked).2.symm⟩
  rcases waits with blocked | dead
  · rw [(change.waits blocked).1, blocked]
  · obtain ⟨old, same, zombie⟩ := spares.spares slot task present dead
    rw [there] at same
    cases same
    rw [zombie, dead]

theorem persists_update {tasks : Slot → Option Task} {slot : Slot} {content : Option Task}
    (alive : ∀ task, content = some task → task.state ≠ .blocked ∧ task.state ≠ .zombie) :
    Persists tasks (Function.update tasks slot content) := by
  intro other task present waits
  by_cases same : other = slot
  · subst same
    rw [Function.update_self] at present
    obtain ⟨notBlocked, notDead⟩ := alive task present
    rcases waits with blocked | dead
    · exact absurd blocked notBlocked
    · exact absurd dead notDead
  · rw [Function.update_of_ne same] at present
    exact ⟨task, present, rfl, rfl, rfl, fun _ => rfl⟩

theorem persists_set_task {kernel : Kernel} {slot : Slot} {task changed : Task}
    (present : kernel.tasks slot = some task) (state : task.state = changed.state)
    (pid : task.pid = changed.pid) (ppid : task.ppid = changed.ppid)
    (target : task.waitingForPid = changed.waitingForPid) :
    Persists kernel.tasks (kernel.setTask slot changed).tasks := by
  intro other found there _
  by_cases same : other = slot
  · subst same
    rw [set_task_same] at there
    cases there
    exact ⟨task, present, state, pid, ppid, fun _ => target⟩
  · rw [set_task_other kernel _ same] at there
    exact ⟨found, there, rfl, rfl, rfl, fun _ => rfl⟩

theorem persists_modify_current {kernel : Kernel} {change : Task → Task}
    (same : ∀ task, task.state = (change task).state ∧ task.pid = (change task).pid ∧
      task.ppid = (change task).ppid ∧ task.waitingForPid = (change task).waitingForPid) :
    Persists kernel.tasks (kernel.modifyCurrent change).tasks := by
  unfold Kernel.modifyCurrent
  split
  · rename_i task present
    obtain ⟨state, pid, ppid, target⟩ := same task
    exact persists_set_task present state pid ppid target
  · exact Persists.refl kernel.tasks

section

variable {kernel : Kernel} {blockedOn : Slot → Option WaitReason} {waitTarget : Slot → Nat}
variable {slot : Slot} {task dead : Task}

theorem recorded_dies (recorded : Recorded kernel.tasks blockedOn waitTarget)
    (zombie : dead.state = .zombie) (notIdle : slot ≠ idleSlot) :
    Recorded (kernel.setTask slot dead).tasks blockedOn waitTarget where
  target := by
    rintro other found ⟨present, blocked, reason⟩
    by_cases same : other = slot
    · subst same
      rw [set_task_same] at present
      cases present
      rw [zombie] at blocked
      cases blocked
    · rw [set_task_other kernel _ same] at present
      exact recorded.target other found ⟨present, blocked, reason⟩
  idle := by
    intro found present
    rw [set_task_other kernel _ notIdle.symm] at present
    exact recorded.idle found present

def NotAwaited (kernel : Kernel) (blockedOn : Slot → Option WaitReason) (waitTarget : Slot → Nat)
    (slot : Slot) (task : Task) : Prop :=
  ∀ other parent, other ≠ slot → AwaitsChild kernel.tasks blockedOn other parent →
    parent.pid = task.ppid → ¬(waitTarget other = u64Max ∨ waitTarget other = task.pid)

theorem none_lost_dies_iff (noneLost : NoneLost kernel.tasks blockedOn waitTarget)
    (zombie : dead.state = .zombie) (pid : dead.pid = task.pid) (ppid : dead.ppid = task.ppid) :
    NoneLost (kernel.setTask slot dead).tasks blockedOn waitTarget ↔
      NotAwaited kernel blockedOn waitTarget slot task := by
  constructor
  · intro after other parent different awaits isParent wanted
    obtain ⟨present, blocked, reason⟩ := awaits
    have there : (kernel.setTask slot dead).tasks other = some parent := by
      rw [set_task_other kernel _ different]
      exact present
    apply after other parent ⟨there, blocked, reason⟩ slot dead (set_task_same kernel slot dead)
    rw [Collectable, ppid, pid]
    exact ⟨zombie, isParent.symm, wanted⟩
  · rintro spared other parent ⟨present, blocked, reason⟩ third child there collectable
    have different : other ≠ slot := by
      rintro rfl
      rw [set_task_same] at present
      cases present
      rw [zombie] at blocked
      cases blocked
    rw [set_task_other kernel _ different] at present
    by_cases same : third = slot
    · subst same
      rw [set_task_same] at there
      cases there
      obtain ⟨_, isChild, wanted⟩ := collectable
      rw [ppid] at isChild
      rw [pid] at wanted
      exact spared other parent different ⟨present, blocked, reason⟩ isChild.symm wanted
    · rw [set_task_other kernel _ same] at there
      exact noneLost other parent ⟨present, blocked, reason⟩ third child there collectable

/-- `wake_child_waiters` leaves nobody blocked who waits for the task. -/
theorem wake_child_waiters_spares_none (recorded : Recorded kernel.tasks blockedOn waitTarget)
    (pid ppid : Nat) {other : Slot} {parent : Task}
    (awaits : AwaitsChild (kernel.wakeChildWaiters pid ppid).tasks blockedOn other parent)
    (isParent : parent.pid = ppid) : ¬(waitTarget other = u64Max ∨ waitTarget other = pid) := by
  intro wanted
  obtain ⟨present, blocked, reason⟩ := awaits
  simp only [Kernel.wakeChildWaiters] at present
  obtain ⟨prior, there, changed⟩ := Option.map_eq_some_iff.mp present
  by_cases woken : Kernel.wakesOnExit pid ppid prior = true
  · rw [if_pos woken] at changed
    rw [← changed] at blocked
    cases blocked
  · rw [if_neg woken] at changed
    subst changed
    have target := recorded.target other prior ⟨there, blocked, reason⟩
    apply woken
    rcases wanted with any | exact
    · simp [Kernel.wakesOnExit, blocked, target, any, isParent]
    · simp [Kernel.wakesOnExit, blocked, target, exact]

/-- A death followed at once by `wake_child_waiters` loses no wake-up. -/
theorem covered_dies_and_wakes (covered : Covered kernel.tasks blockedOn waitTarget)
    (notIdle : slot ≠ idleSlot) (zombie : dead.state = .zombie) :
    Covered ((kernel.setTask slot dead).wakeChildWaiters dead.pid dead.ppid).tasks blockedOn
      waitTarget := by
  have recorded := recorded_dies covered.recorded zombie notIdle
  have woken := persists_spares
    (wake_child_waiters_stirred (kernel.setTask slot dead) dead.pid dead.ppid).spares
  refine ⟨recorded_persists recorded woken fun _ _ _ => rfl, ?_⟩
  intro other parent awaits third child there collectable
  have spared := @wake_child_waiters_spares_none _ _ _ recorded dead.pid dead.ppid _ _ awaits
  obtain ⟨prior, earlier, pid, _⟩ := awaits_before woken (fun _ _ _ => rfl) awaits
  obtain ⟨old, before, state, oldPid, oldPpid, _⟩ :=
    woken third child there (.inr collectable.1)
  obtain ⟨_, isChild, wanted⟩ := collectable
  by_cases same : third = slot
  · subst same
    rw [set_task_same] at before
    cases before
    rw [← oldPid] at wanted
    exact spared (isChild.symm.trans oldPpid.symm) wanted
  · obtain ⟨present, blocked, reason⟩ := earlier
    have different : other ≠ slot := by
      rintro rfl
      rw [set_task_same] at present
      cases present
      rw [zombie] at blocked
      cases blocked
    rw [set_task_other kernel _ different] at present
    rw [set_task_other kernel _ same] at before
    apply covered.noneLost other prior ⟨present, blocked, reason⟩ third old before
    rw [Collectable, oldPid, oldPpid, pid, state]
    exact ⟨by assumption, isChild, wanted⟩

end

section

variable {kernel : Kernel} {blockedOn : Slot → Option WaitReason} {waitTarget : Slot → Nat}

theorem covered_deliver_slot (covered : Covered kernel.tasks blockedOn waitTarget) {slot : Slot}
    (notIdle : slot ≠ idleSlot) :
    Covered (kernel.deliverSlot slot).tasks blockedOn waitTarget := by
  rcases deliver_slot_cases kernel slot with ⟨task, pending, present, _, killed⟩ | ⟨_, stirred⟩
  · rw [killed]
    exact @covered_dies_and_wakes { kernel with pool := FdTable.closeAll kernel.pool task.fdTable }
      _ _ _ { task with
        pendingSignals := pending
        fdTable := fun _ => .empty
        exitCode := 1
        state := .zombie } covered notIdle rfl
  · exact covered_persists covered (persists_spares stirred.spares) fun _ _ _ => rfl

theorem recorded_deliver_slot (recorded : Recorded kernel.tasks blockedOn waitTarget) {slot : Slot}
    (notIdle : slot ≠ idleSlot) :
    Recorded (kernel.deliverSlot slot).tasks blockedOn waitTarget := by
  rcases deliver_slot_cases kernel slot with ⟨task, pending, present, _, killed⟩ | ⟨_, stirred⟩
  · rw [killed]
    apply recorded_persists _ (persists_spares (wake_child_waiters_stirred _ _ _).spares)
      fun _ _ _ => rfl
    exact @recorded_dies { kernel with pool := FdTable.closeAll kernel.pool task.fdTable }
      _ _ _ { task with
        pendingSignals := pending
        fdTable := fun _ => .empty
        exitCode := 1
        state := .zombie } recorded rfl notIdle
  · exact recorded_persists recorded (persists_spares stirred.spares) fun _ _ _ => rfl

theorem schedule_persists (machine : Machine) :
    Persists machine.kernel.tasks machine.schedule.1.kernel.tasks ∧
      machine.schedule.1.blockedOn = machine.blockedOn := by
  have shape := schedule_case machine
  generalize machine.schedule = result at shape ⊢
  cases shape with
  | stays => exact ⟨Persists.refl _, rfl⟩
  | halts => exact ⟨Persists.refl _, rfl⟩
  | @switched next prevTask nextTask picked different incoming outgoing =>
      obtain ⟨irqsOn, fsBase, halted, shape⟩ := resume_keeps
        (machine.switchOut next prevTask nextTask) next (machine.savedStacks next)
      rw [shape]
      exact ⟨persists_set_task outgoing rfl rfl rfl rfl, rfl⟩

end

structure Stable (Holds : (Slot → Option Task) → (Slot → Option WaitReason) → (Slot → Nat) → Prop) :
    Prop where
  persists : ∀ {before after blockedOn reasons waitTarget}, Holds before blockedOn waitTarget →
    Persists before after → (∀ slot task, after slot = some task → reasons slot = blockedOn slot) →
    Holds after reasons waitTarget
  delivers : ∀ {kernel : Kernel} {blockedOn waitTarget}, Holds kernel.tasks blockedOn waitTarget →
    ∀ slot, slot ≠ idleSlot → Holds (kernel.deliverSlot slot).tasks blockedOn waitTarget
  reads : ∀ {kernel : Kernel} {blockedOn waitTarget task reason},
    Holds kernel.tasks blockedOn waitTarget → reason ≠ .child →
    Holds (blockedKernel kernel task task.waitingForPid).tasks
      (Function.update blockedOn kernel.current (some reason)) waitTarget
  waits : ∀ {kernel : Kernel} {blockedOn waitTarget task target},
    Holds kernel.tasks blockedOn waitTarget → kernel.currentTask = some task →
    kernel.findZombieChild kernel.currentPid target = none →
    Holds (blockedKernel kernel task target).tasks
      (Function.update blockedOn kernel.current (some .child))
      (Function.update waitTarget kernel.current target)

section

variable {Holds : (Slot → Option Task) → (Slot → Option WaitReason) → (Slot → Nat) → Prop}

theorem stable_deliver_slots (stable : Stable Holds) {kernel : Kernel}
    {blockedOn : Slot → Option WaitReason} {waitTarget : Slot → Nat} {slots : List Slot}
    (notIdle : ∀ slot ∈ slots, slot ≠ idleSlot) (holds : Holds kernel.tasks blockedOn waitTarget) :
    Holds (slots.foldl Kernel.deliverSlot kernel).tasks blockedOn waitTarget := by
  induction slots generalizing kernel with
  | nil => exact holds
  | cons slot rest ih =>
      apply ih
      · exact fun other member => notIdle other (List.mem_cons_of_mem slot member)
      · exact stable.delivers holds slot (notIdle slot List.mem_cons_self)

theorem stable_tick_counted (stable : Stable Holds) {machine : Machine} {waitTarget : Slot → Nat}
    (holds : Holds machine.kernel.tasks machine.blockedOn waitTarget) :
    Holds machine.tickCounted.kernel.tasks machine.tickCounted.blockedOn waitTarget := by
  unfold Machine.tickCounted
  dsimp only [Machine.withKernel]
  split_ifs
  · exact stable_deliver_slots stable (fun slot => (mem_task_slots_iff slot).mp) holds
  · exact holds

/-- Every action but the `waitpid` that blocks. -/
theorem stable_case (stable : Stable Holds) {machine : Machine} {action : Action}
    {waitTarget : Slot → Nat} {result : Machine × Option Event}
    (shape : StepCase machine action result) (noExit : ∀ code, action ≠ .exitMark code)
    (noWait : ∀ target noHang, action ≠ .waitpid target noHang)
    (holds : Holds machine.kernel.tasks machine.blockedOn waitTarget) :
    Holds result.1.kernel.tasks result.1.blockedOn waitTarget := by
  cases shape with
  | quiet source evolves =>
      cases source with
      | stirs stirred =>
          exact stable.persists holds (persists_spares stirred.spares) fun _ _ _ => rfl
      | calls call =>
          exact stable.persists holds (persists_spares (descriptor_kernel_spares call))
            fun _ _ _ => rfl
      | delivers enabled => exact stable_tick_counted stable holds
  | @switches _ before source evolves others =>
      obtain ⟨persists, blockedOn⟩ := schedule_persists before
      apply stable.persists _ persists fun slot _ _ => congrFun blockedOn slot
      rcases source with ⟨_, rfl⟩ | ⟨_, rfl, _⟩
      · exact holds
      · exact stable_tick_counted stable holds
  | halts unchanged =>
      apply stable.persists holds (Persists.refl _)
      intro slot task present
      change machine.kernel.tasks slot = some task at present
      exact unchanged slot (by simp [present])
  | exits present => exact absurd rfl (noExit _)
  | reaps found present => exact absurd rfl (noWait _ _)
  | blocksOnChild absent living present => exact absurd rfl (noWait _ _)
  | @blocksOnTty task present =>
      exact @Stable.reads Holds stable
        { machine.kernel with ttyWaiter := some machine.kernel.current } _ _ task _ holds (by decide)
  | @blocksOnPipe index task must present =>
      exact @Stable.reads Holds stable
        { machine.kernel with
          pipeWaiters := Function.update machine.kernel.pipeWaiters index
            (some machine.kernel.current) } _ _ task _ holds (by simp)
  | gathers unchosen => exact holds
  | chooses gathered vacant => exact holds
  | @installs slot request userRsp chosen =>
      apply stable.persists holds _ fun _ _ _ => rfl
      apply persists_update
      intro task present
      cases present
      rw [request.ready]
      decide
  | setsFsBase =>
      exact stable.persists holds (persists_modify_current fun _ => ⟨rfl, rfl, rfl, rfl⟩)
        fun _ _ _ => rfl
  | writesFsBase => exact holds
  | execs inside =>
      simp only [Machine.execve, inside]
      exact stable.persists holds (persists_modify_current fun _ => ⟨rfl, rfl, rfl, rfl⟩)
        fun _ _ _ => rfl
  | movesStack outside => exact holds
  | enters outside user => exact holds
  | returns inside =>
      have same : machine.sysret.1.blockedOn = machine.blockedOn := by
        unfold Machine.sysret Machine.applyExecRedirect
        split
        · dsimp only
          split <;> rfl
        · rfl
      rw [sysret_kernel, same]
      exact holds

/-- The `waitpid` action on a machine that is not stopped. -/
theorem stable_waitpid (stable : Stable Holds) {machine : Machine} {waitTarget : Slot → Nat}
    (target : Nat) (noHang : Bool) (holds : Holds machine.kernel.tasks machine.blockedOn waitTarget) :
    Holds (machine.waitpid target noHang).1.kernel.tasks
      (machine.waitpid target noHang).1.blockedOn
      (match machine.kernel.waitpid target noHang with
        | some (_, .blocked) => Function.update waitTarget machine.kernel.current target
        | _ => waitTarget) := by
  unfold Machine.waitpid Kernel.waitpid
  cases found : machine.kernel.findZombieChild machine.kernel.currentPid target with
  | some slot =>
      cases present : machine.kernel.tasks slot with
      | none =>
          simp only [found, present, Option.map_none]
          exact holds
      | some task =>
          simp only [found, present, Option.map_some]
          apply stable.persists holds _ fun _ _ _ => rfl
          exact persists_update fun _ absent => by cases absent
  | none =>
      simp only [found]
      by_cases living : (!machine.kernel.hasLivingChild machine.kernel.currentPid) = true
      · simp only [if_pos living]
        exact holds
      · simp only [if_neg living]
        cases noHang with
        | true =>
            simp only [if_true]
            exact holds
        | false =>
            simp only [Bool.false_eq_true, if_false, Kernel.blockCurrent]
            cases present : machine.kernel.currentTask with
            | none =>
                simp only [Option.map_none]
                exact holds
            | some task =>
                simp only [Option.map_some]
                exact stable.waits holds present found

theorem stable_between (stable : Stable Holds) {state : WaitMachine} {action : Action}
    (noExit : ∀ code, action ≠ .exitMark code)
    (holds : Holds state.machine.kernel.tasks state.machine.blockedOn state.waitTarget) :
    Holds (state.step (.between action)).machine.kernel.tasks
      (state.step (.between action)).machine.blockedOn
      (state.step (.between action)).waitTarget := by
  cases action
  case exitMark code => exact absurd rfl (noExit code)
  case waitpid target noHang =>
    simp only [WaitMachine.step, WaitMachine.blockedTarget]
    by_cases stopped : state.machine.halted = true ∨ state.machine.returning = true
    · rw [@step_of_stopped _ (.waitpid target noHang) stopped (by simp)]
      simp only [if_pos stopped]
      split <;> exact holds
    · simp only [if_neg stopped]
      simp only [not_or, Bool.not_eq_true] at stopped
      rw [step_of_running _ stopped.1 stopped.2]
      exact stable_waitpid stable target noHang holds
  all_goals
    simp only [WaitMachine.step, WaitMachine.blockedTarget]
    exact stable_case stable (step_case state.machine _) noExit (by simp) holds

end

section

variable {kernel : Kernel} {blockedOn : Slot → Option WaitReason} {waitTarget : Slot → Nat}
variable {task : Task}

/-- Of the tasks that wait after a task has blocked, all but that one waited
before. -/
theorem awaits_others {reason : WaitReason} {target : Nat} {slot : Slot} {found : Task}
    (different : slot ≠ kernel.current)
    (awaits : AwaitsChild (blockedKernel kernel task target).tasks
      (Function.update blockedOn kernel.current (some reason)) slot found) :
    AwaitsChild kernel.tasks blockedOn slot found := by
  obtain ⟨present, blocked, cause⟩ := awaits
  rw [blockedKernel, set_task_other kernel _ different] at present
  rw [Function.update_of_ne different] at cause
  exact ⟨present, blocked, cause⟩

theorem zombie_others {target : Nat} {slot : Slot} {found : Task}
    (present : (blockedKernel kernel task target).tasks slot = some found)
    (dead : found.state = .zombie) : kernel.tasks slot = some found := by
  by_cases same : slot = kernel.current
  · subst same
    rw [blockedKernel, set_task_same] at present
    cases present
    cases dead
  · rw [blockedKernel, set_task_other kernel _ same] at present
    exact present

theorem recorded_reads {reason : WaitReason} (recorded : Recorded kernel.tasks blockedOn waitTarget)
    (other : reason ≠ .child) :
    Recorded (blockedKernel kernel task task.waitingForPid).tasks
      (Function.update blockedOn kernel.current (some reason)) waitTarget where
  target := by
    intro slot found awaits
    by_cases same : slot = kernel.current
    · obtain ⟨_, _, cause⟩ := awaits
      rw [same, Function.update_self] at cause
      exact absurd (Option.some.inj cause) other
    · exact recorded.target slot found (awaits_others same awaits)
  idle := by
    intro found present dead
    exact recorded.idle found (zombie_others present dead) dead

theorem covered_reads {reason : WaitReason} (covered : Covered kernel.tasks blockedOn waitTarget)
    (other : reason ≠ .child) :
    Covered (blockedKernel kernel task task.waitingForPid).tasks
      (Function.update blockedOn kernel.current (some reason)) waitTarget := by
  refine ⟨recorded_reads covered.recorded other, ?_⟩
  intro slot found awaits third child there collectable
  by_cases same : slot = kernel.current
  · obtain ⟨_, _, cause⟩ := awaits
    rw [same, Function.update_self] at cause
    exact other (Option.some.inj cause)
  · exact covered.noneLost slot found (awaits_others same awaits) third child
      (zombie_others there collectable.1) collectable

theorem recorded_waits {target : Nat} (recorded : Recorded kernel.tasks blockedOn waitTarget) :
    Recorded (blockedKernel kernel task target).tasks
      (Function.update blockedOn kernel.current (some .child))
      (Function.update waitTarget kernel.current target) where
  target := by
    intro slot found awaits
    by_cases same : slot = kernel.current
    · obtain ⟨present, _, _⟩ := awaits
      rw [same, blockedKernel, set_task_same] at present
      cases present
      rw [same, Function.update_self]
    · rw [Function.update_of_ne same]
      exact recorded.target slot found (awaits_others same awaits)
  idle := by
    intro found present dead
    exact recorded.idle found (zombie_others present dead) dead

/-- The scan of `waitpid` finds every zombie outside the idle slot. -/
theorem scan_finds_none {parentPid target : Nat}
    (absent : kernel.findZombieChild parentPid target = none) {slot : Slot} {child : Task}
    (notIdle : slot ≠ idleSlot) (present : kernel.tasks slot = some child) :
    ¬Collectable parentPid target child := by
  rintro ⟨dead, parent, wanted⟩
  have missed := List.find?_eq_none.mp absent slot ((mem_task_slots_iff slot).mpr notIdle)
  apply missed
  rw [present, Option.any_some]
  rcases wanted with any | exact
  · simp [Kernel.isZombieChild, dead, parent, any]
  · simp [Kernel.isZombieChild, dead, parent, exact]

theorem covered_waits {target : Nat} (covered : Covered kernel.tasks blockedOn waitTarget)
    (present : kernel.currentTask = some task)
    (absent : kernel.findZombieChild kernel.currentPid target = none) :
    Covered (blockedKernel kernel task target).tasks
      (Function.update blockedOn kernel.current (some .child))
      (Function.update waitTarget kernel.current target) := by
  refine ⟨recorded_waits covered.recorded, ?_⟩
  intro slot found awaits third child there collectable
  have before := zombie_others there collectable.1
  by_cases same : slot = kernel.current
  · obtain ⟨here, _, _⟩ := awaits
    rw [same, blockedKernel, set_task_same] at here
    cases here
    rw [same, Function.update_self] at collectable
    have pid : kernel.currentPid = task.pid := by
      rw [Kernel.currentPid, present]
      rfl
    rw [pid] at absent
    apply scan_finds_none absent _ before collectable
    rintro rfl
    exact covered.recorded.idle child before collectable.1
  · rw [Function.update_of_ne same] at collectable
    exact covered.noneLost slot found (awaits_others same awaits) third child before collectable

end

theorem stable_recorded : Stable Recorded where
  persists := recorded_persists
  delivers := fun recorded _ notIdle => recorded_deliver_slot recorded notIdle
  reads := recorded_reads
  waits := fun recorded _ _ => recorded_waits recorded

theorem stable_covered : Stable Covered where
  persists := covered_persists
  delivers := fun covered _ notIdle => covered_deliver_slot covered notIdle
  reads := covered_reads
  waits := covered_waits

theorem parent_told_spares (kernel : Kernel) (ppid : Nat) :
    KernelSpares kernel (kernel.signalParent ppid sigchld).wakeClosedPipeReaders :=
  (signal_parent_stirred kernel ppid sigchld).spares.trans
    (wake_closed_pipe_readers_stirred _).spares

/-- `exit_current` as one section marks the task and wakes its parent. -/
theorem covered_exit_kernel {kernel : Kernel} {blockedOn : Slot → Option WaitReason}
    {waitTarget : Slot → Nat} (code : BitVec 32)
    (covered : Covered kernel.tasks blockedOn waitTarget) (notIdle : kernel.current ≠ idleSlot) :
    Covered (exitKernel kernel code).tasks blockedOn waitTarget := by
  unfold exitKernel Kernel.exitMark
  cases present : kernel.currentTask with
  | none => exact covered
  | some task =>
      dsimp only
      have woken := @covered_dies_and_wakes
        { kernel with pool := (task.exit kernel.pool code).1 } blockedOn waitTarget kernel.current
        (task.exit kernel.pool code).2 covered notIdle rfl
      exact covered_persists woken (persists_spares (parent_told_spares _ _)) fun _ _ _ => rfl

theorem recorded_exit_mark {kernel : Kernel} {blockedOn : Slot → Option WaitReason}
    {waitTarget : Slot → Nat} (code : BitVec 32)
    (recorded : Recorded kernel.tasks blockedOn waitTarget) (notIdle : kernel.current ≠ idleSlot) :
    Recorded (kernel.exitMark code).tasks blockedOn waitTarget := by
  unfold Kernel.exitMark
  cases present : kernel.currentTask with
  | none => exact recorded
  | some task =>
      exact @recorded_dies { kernel with pool := (task.exit kernel.pool code).1 } _ _ _ _ recorded
        rfl notIdle

/-- The section that marks the task loses no wake-up exactly if no parent is
blocked waiting for it. -/
theorem covered_exit_mark_iff {kernel : Kernel} {blockedOn : Slot → Option WaitReason}
    {waitTarget : Slot → Nat} (code : BitVec 32)
    (covered : Covered kernel.tasks blockedOn waitTarget) (notIdle : kernel.current ≠ idleSlot) :
    Covered (kernel.exitMark code).tasks blockedOn waitTarget ↔
      ∀ task, kernel.currentTask = some task →
        NotAwaited kernel blockedOn waitTarget kernel.current task := by
  have recorded := recorded_exit_mark code covered.recorded notIdle
  unfold Kernel.exitMark at recorded ⊢
  cases present : kernel.currentTask with
  | none =>
      constructor
      · intro _ task absent
        cases absent
      · exact fun _ => covered
  | some task =>
      rw [present] at recorded
      have dies := @none_lost_dies_iff { kernel with pool := (task.exit kernel.pool code).1 }
        blockedOn waitTarget kernel.current task (task.exit kernel.pool code).2 covered.noneLost
        rfl rfl rfl
      constructor
      · intro after other same
        cases same
        exact dies.mp after.noneLost
      · intro spared
        exact ⟨recorded, dies.mpr (spared task rfl)⟩

/-- An `exit_current` that runs with interrupts on finds no parent blocked in a
`waitpid` that waits for the task. -/
def ExitsUnawaited (state : WaitMachine) : WaitAction → Prop
  | .exitCurrent _ => state.mayExit = true → state.machine.irqsOn = true →
      ∀ task, state.machine.kernel.currentTask = some task →
        NotAwaited state.machine.kernel state.machine.blockedOn state.waitTarget
          state.machine.kernel.current task
  | .between _ => True

theorem may_exit_not_idle {state : WaitMachine} (may : state.mayExit = true) :
    state.machine.kernel.current ≠ idleSlot := by
  simp only [WaitMachine.mayExit, Bool.and_eq_true, bne_iff_ne] at may
  exact may.2

def StateRecorded (state : WaitMachine) : Prop :=
  Recorded state.machine.kernel.tasks state.machine.blockedOn state.waitTarget

def StateCovered (state : WaitMachine) : Prop :=
  Covered state.machine.kernel.tasks state.machine.blockedOn state.waitTarget

theorem schedule_stable
    {Holds : (Slot → Option Task) → (Slot → Option WaitReason) → (Slot → Nat) → Prop}
    (stable : Stable Holds) {machine : Machine} {waitTarget : Slot → Nat}
    (holds : Holds machine.kernel.tasks machine.blockedOn waitTarget) :
    Holds machine.schedule.1.kernel.tasks machine.schedule.1.blockedOn waitTarget := by
  obtain ⟨persists, blockedOn⟩ := schedule_persists machine
  exact stable.persists holds persists fun slot _ _ => congrFun blockedOn slot

theorem recorded_exit_kernel {kernel : Kernel} {blockedOn : Slot → Option WaitReason}
    {waitTarget : Slot → Nat} (code : BitVec 32)
    (recorded : Recorded kernel.tasks blockedOn waitTarget) (notIdle : kernel.current ≠ idleSlot) :
    Recorded (exitKernel kernel code).tasks blockedOn waitTarget := by
  have marked := recorded_exit_mark code recorded notIdle
  unfold exitKernel
  cases present : kernel.currentTask with
  | none => exact recorded
  | some task =>
      have told := (wake_child_waiters_stirred (kernel.exitMark code) task.pid
        task.ppid).spares.trans (parent_told_spares _ task.ppid)
      exact recorded_persists marked (persists_spares told) fun _ _ _ => rfl

theorem recorded_step (state : WaitMachine) (action : WaitAction) (recorded : StateRecorded state) :
    StateRecorded (state.step action) := by
  cases action with
  | exitCurrent code =>
      unfold StateRecorded
      simp only [WaitMachine.step, WaitMachine.exitCurrent]
      by_cases may : state.mayExit = true
      · have notIdle := may_exit_not_idle may
        simp only [may, Bool.not_true, Bool.false_eq_true, if_false]
        split_ifs
        · exact recorded_exit_mark code recorded notIdle
        · exact schedule_stable stable_recorded (recorded_exit_kernel code recorded notIdle)
      · simp only [may, Bool.not_false, if_true]
        exact recorded
  | between action =>
      by_cases exits : ∃ code, action = .exitMark code
      · obtain ⟨code, rfl⟩ := exits
        exact recorded
      · simp only [not_exists] at exits
        exact stable_between stable_recorded exits recorded

theorem covered_step_iff (state : WaitMachine) (action : WaitAction)
    (covered : StateCovered state) :
    StateCovered (state.step action) ↔ ExitsUnawaited state action := by
  cases action with
  | exitCurrent code =>
      simp only [StateCovered, WaitMachine.step, WaitMachine.exitCurrent, ExitsUnawaited]
      by_cases may : state.mayExit = true
      · have notIdle := may_exit_not_idle may
        simp only [may, Bool.not_true, Bool.false_eq_true, if_false, true_implies]
        by_cases enabled : state.machine.irqsOn = true
        · simp only [enabled, if_true, true_implies]
          exact covered_exit_mark_iff code covered notIdle
        · simp only [enabled, Bool.false_eq_true, if_false, false_implies, iff_true]
          exact schedule_stable stable_covered (covered_exit_kernel code covered notIdle)
      · simp only [may, Bool.not_false, if_true, Bool.false_eq_true, false_implies, iff_true]
        exact covered
  | between action =>
      simp only [ExitsUnawaited, iff_true]
      by_cases exits : ∃ code, action = .exitMark code
      · obtain ⟨code, rfl⟩ := exits
        exact covered
      · simp only [not_exists] at exits
        exact stable_between stable_covered exits covered

theorem recorded_boot : StateRecorded waitSystem.init where
  target := by
    rintro slot task ⟨_, _, reason⟩
    cases reason
  idle := by
    intro task present
    cases present
    decide

theorem covered_boot : StateCovered waitSystem.init := by
  refine ⟨recorded_boot, ?_⟩
  rintro slot task ⟨_, _, reason⟩
  cases reason

theorem reached_recorded (actions : List WaitAction) :
    StateRecorded (waitSystem.runFrom waitSystem.init actions) :=
  EventSystem.run_keeps StateRecorded recorded_step actions recorded_boot

/-- In a run from boot no wake-up is lost in any state reached, exactly when
every `exit_current` that runs with interrupts on ends a task that no blocked
parent waits for. -/
theorem no_lost_wake_up_iff (actions : List WaitAction) :
    (∀ before, before <+: actions →
      NoLostWakeUp (waitSystem.runFrom waitSystem.init before)) ↔
      waitSystem.StepsMeet ExitsUnawaited waitSystem.init actions := by
  rw [← EventSystem.reached_satisfy_iff StateCovered covered_step_iff actions covered_boot]
  constructor
  · intro noneLost before isPrefix
    exact ⟨reached_recorded before, noneLost before isPrefix⟩
  · intro covered before isPrefix
    exact (covered before isPrefix).noneLost

def losesWakeUp (state : WaitMachine) (slot other : Slot) : Bool :=
  state.machine.blockedOn slot == some .child &&
    (state.machine.kernel.tasks slot).any fun parent => parent.state == .blocked &&
      (state.machine.kernel.tasks other).any
        (Kernel.isZombieChild parent.pid (state.waitTarget slot))

theorem wake_up_lost {state : WaitMachine} {slot other : Slot}
    (loses : losesWakeUp state slot other = true) : ¬NoLostWakeUp state := by
  intro noneLost
  simp only [losesWakeUp, Bool.and_eq_true, beq_iff_eq, Option.any_eq_true] at loses
  obtain ⟨reason, parent, present, blocked, child, there, zombie⟩ := loses
  apply noneLost slot parent ⟨present, blocked, reason⟩ other child there
  simp only [Kernel.isZombieChild, Bool.and_eq_true, Bool.or_eq_true, beq_iff_eq] at zombie
  obtain ⟨⟨dead, isChild⟩, wanted⟩ := zombie
  exact ⟨dead, isChild, wanted.imp_right Eq.symm⟩

def parentWaits : List WaitAction :=
  [.spawnGather (.user 0x10000 0x19000 0x20000 0 0x7000), .spawnChoose, .spawnInstall, .schedule,
    .syscallEntry, .spawnGather (.fork 0x30000 0x39000 0x40000 0x7000), .spawnChoose,
    .spawnInstall, .sysret,
    .syscallEntry, .waitpid u64Max false, .schedule].map .between

/-- The child exits through `INT 0x80`, and the timer takes the processor from
it before it has woken its parent. -/
theorem wake_up_lost_to_timer :
    ¬∀ actions : List WaitAction,
      NoLostWakeUp (waitSystem.runFrom waitSystem.init actions) := by
  intro noneLost
  apply @wake_up_lost _ ⟨1, by decide⟩ ⟨2, by decide⟩ _ (noneLost
    (parentWaits ++ [.exitCurrent 0] ++ List.replicate 10 (.between .tick)))
  decide +kernel

end Ferrugem.ChildWaiters
