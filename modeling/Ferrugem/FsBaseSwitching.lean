import Ferrugem.TaskLifecycle

/-!
# `FS.base` across context switches

`schedule` stores the outgoing task's `FS.base` before `context_switch` and
loads one after it. The statement after the switch runs in the frame of the
task that resumes, so its `next` is the slot that this task had switched *to*
when it was suspended, not its own slot. Per-task `FS.base` is therefore
preserved exactly as long as the two slots agree on the value.
-/

namespace Ferrugem.FsBaseSwitching

open Ferrugem.ProcessModel Ferrugem.SchedulerModel Ferrugem.KernelMachine
open Ferrugem.KernelEvolution Ferrugem.TaskLifecycle

set_option autoImplicit false

/-- A resumed call finds its own `FS.base`, and its `unwrap` a task. -/
def FsBaseRestored : Event → Prop
  | .resumed _ switchedOut loaded => loaded = some switchedOut
  | _ => True

/-- The suspended call that a `schedule()` from this state resumes. -/
def incomingCall (machine : Machine) : Option ScheduleFrame :=
  if machine.kernel.pickNext = machine.kernel.current then none
  else
    match machine.kernel.tasks machine.kernel.pickNext, machine.kernel.currentTask,
        machine.savedStacks machine.kernel.pickNext with
    | some _, some _, .suspended frame => some frame
    | _, _, _ => none

/-- The state in which the step calls `schedule()`, if it does. -/
def schedulingState (machine : Machine) (action : Action) : Option Machine :=
  if machine.halted ∨ machine.returning then none
  else
    match action with
    | .schedule => some machine
    | .tick =>
        if machine.irqsOn ∧ machine.tickCounted.kernel.tickCount % 10 = 0 then
          some machine.tickCounted
        else none
    | _ => none

/-- The value the outgoing switch leaves as the saved `FS.base` of a slot. -/
def savedFsBase (machine : Machine) (slot : Slot) : Option Nat :=
  (machine.kernel.tasks slot).map fun task =>
    if slot = machine.kernel.current then machine.fsBase else task.fsBase

/-- Whenever `schedule()` resumes a suspended call, the slot that this call
had switched to still holds a task, and that task's saved `FS.base` is the one
of the task being resumed. -/
def ResumedSlotsAgree (machine : Machine) (action : Action) : Prop :=
  ∀ before ∈ schedulingState machine action, ∀ frame ∈ incomingCall before,
    (savedFsBase before frame.next).isSome ∧
      savedFsBase before frame.next = savedFsBase before before.kernel.pickNext

/-- The saved `FS.base` of a suspended task is the one it was switched out with. -/
def SavedAtSwitch (machine : Machine) : Prop :=
  ∀ slot frame task, slot ≠ machine.kernel.current →
    machine.savedStacks slot = .suspended frame →
    machine.kernel.tasks slot = some task → task.fsBase = frame.fsAtSwitch

theorem saved_at_switch_boot : SavedAtSwitch bootMachine := by
  intro slot frame task different suspended present
  simp [bootMachine] at suspended

/-- Steps that keep `CURRENT`, the saved stacks and the `FS.base` fields of all
other slots keep the invariant; an emptied slot is harmless. -/
theorem saved_at_switch_frame {before after : Machine} (saved : SavedAtSwitch before)
    (current : after.kernel.current = before.kernel.current)
    (savedStacks : after.savedStacks = before.savedStacks)
    (fsBase : ∀ slot task, slot ≠ before.kernel.current → after.kernel.tasks slot = some task →
      ∃ prior, before.kernel.tasks slot = some prior ∧ task.fsBase = prior.fsBase) :
    SavedAtSwitch after := by
  intro slot frame task different suspended present
  rw [current] at different
  obtain ⟨prior, priorPresent, same⟩ := fsBase slot task different present
  rw [savedStacks] at suspended
  exact same.trans (saved slot frame prior different suspended priorPresent)

theorem saved_at_switch_evolves {before after : Machine} (saved : SavedAtSwitch before)
    (evolves : KernelEvolves before.kernel after.kernel)
    (savedStacks : after.savedStacks = before.savedStacks) : SavedAtSwitch after := by
  refine saved_at_switch_frame saved evolves.current savedStacks ?_
  intro slot task different present
  have same := evolves.fsBase slot
  rw [present] at same
  obtain ⟨prior, priorPresent, value⟩ := Option.map_eq_some_iff.mp same.symm
  exact ⟨prior, priorPresent, value.symm⟩

theorem saved_at_switch_current {before after : Machine} (saved : SavedAtSwitch before)
    (current : after.kernel.current = before.kernel.current)
    (savedStacks : after.savedStacks = before.savedStacks)
    (others : ∀ slot, slot ≠ before.kernel.current →
      after.kernel.tasks slot = before.kernel.tasks slot) : SavedAtSwitch after := by
  refine saved_at_switch_frame saved current savedStacks ?_
  intro slot task different present
  exact ⟨task, (others slot different).symm.trans present, rfl⟩

theorem saved_at_switch_schedule {machine : Machine} (saved : SavedAtSwitch machine) :
    SavedAtSwitch machine.schedule.1 := by
  have shape := schedule_case machine
  generalize machine.schedule = result at shape ⊢
  cases shape with
  | stays => exact saved
  | halts => exact saved
  | @switched next prevTask nextTask picked different incoming outgoing =>
      intro slot frame task other suspended present
      rw [resume_kernel] at other present
      rw [resume_saved_stacks] at suspended
      change slot ≠ next at other
      by_cases wasCurrent : slot = machine.kernel.current
      · subst wasCurrent
        rw [switch_out_current] at present
        simp only [Machine.switchOut, Function.update_self] at suspended
        cases suspended
        cases present
        rfl
      · rw [switch_out_other wasCurrent] at present
        simp only [Machine.switchOut, Function.update_of_ne wasCurrent] at suspended
        exact saved slot frame task wasCurrent suspended present

theorem saved_at_switch_step (machine : Machine) (action : Action)
    (saved : SavedAtSwitch machine) : SavedAtSwitch (machine.step action).1 := by
  have shape := step_case machine action
  generalize machine.step action = result at shape ⊢
  cases shape with
  | quiet origin evolves => exact saved_at_switch_evolves saved evolves rfl
  | @switches _ before source evolves others =>
      apply saved_at_switch_schedule
      refine saved_at_switch_evolves saved evolves ?_
      rw [others]
      rfl
  | halts => exact saved
  | exits present =>
      exact saved_at_switch_current saved rfl rfl fun slot different =>
        set_task_other _ _ different
  | @reaps _ _ reapedSlot _ found present =>
      refine saved_at_switch_frame saved rfl rfl ?_
      intro slot task different remaining
      by_cases cleared : slot = reapedSlot
      · subst cleared
        simp [Machine.withKernel] at remaining
      · simp only [Machine.withKernel, Function.update_of_ne cleared] at remaining
        exact ⟨task, remaining, rfl⟩
  | blocksOnChild absent living present =>
      exact saved_at_switch_current saved rfl rfl fun slot different =>
        set_task_other _ _ different
  | blocksOnTty present =>
      exact saved_at_switch_current saved rfl rfl fun slot different =>
        set_task_other _ _ different
  | blocksOnPipe must present =>
      exact saved_at_switch_current saved rfl rfl fun slot different =>
        set_task_other _ _ different
  | gathers unchosen => exact saved
  | chooses gathered vacant => exact saved
  | @installs target request userRsp chosen =>
      intro slot frame task different suspended present
      by_cases written : slot = target
      · subst written
        simp at suspended
      · simp only [Function.update_of_ne written] at suspended
        simp only [Kernel.install, Function.update_of_ne written] at present
        exact saved slot frame task different suspended present
  | setsFsBase =>
      exact saved_at_switch_current saved (modify_current_current _ _) rfl
        fun slot different => modify_current_other _ _ different
  | writesFsBase => exact saved
  | execs inside =>
      refine saved_at_switch_current saved ?_ ?_ ?_ <;> simp only [Machine.execve, inside]
      · exact modify_current_current _ _
      · exact fun slot different => modify_current_other _ _ different
  | movesStack outside => exact saved
  | enters outside user => exact saved
  | returns inside =>
      unfold Machine.sysret Machine.applyExecRedirect
      simp only [inside]
      split <;> exact saved

theorem switch_out_saved_fs_base {machine : Machine} {next : Slot} {prevTask nextTask : Task}
    (outgoing : machine.kernel.tasks machine.kernel.current = some prevTask) (slot : Slot) :
    ((machine.switchOut next prevTask nextTask).kernel.tasks slot).map Task.fsBase =
      savedFsBase machine slot := by
  unfold savedFsBase
  by_cases wasCurrent : slot = machine.kernel.current
  · subst wasCurrent
    rw [switch_out_current, outgoing]
    simp
  · rw [switch_out_other wasCurrent]
    simp [wasCurrent]

/-- What a `schedule()` call emits, in terms of the state before it. -/
theorem schedule_event (machine : Machine) :
    machine.schedule.2 = (incomingCall machine).map fun frame =>
      .resumed machine.kernel.pickNext frame.fsAtSwitch (savedFsBase machine frame.next) := by
  unfold Machine.schedule incomingCall
  dsimp only
  split_ifs with same
  · rfl
  · cases incoming : machine.kernel.tasks machine.kernel.pickNext with
    | none => rfl
    | some nextTask =>
        cases outgoing : machine.kernel.currentTask with
        | none => rfl
        | some prevTask =>
            cases saved : machine.savedStacks machine.kernel.pickNext with
            | fresh context irqsOn => rfl
            | suspended frame =>
                dsimp only
                rw [resume_event, switch_out_saved_fs_base outgoing]
                rfl

theorem incoming_call_picked {machine : Machine} {frame : ScheduleFrame}
    (incoming : incomingCall machine = some frame) :
    machine.kernel.pickNext ≠ machine.kernel.current ∧
      machine.savedStacks machine.kernel.pickNext = .suspended frame ∧
      ∃ task, machine.kernel.tasks machine.kernel.pickNext = some task := by
  unfold incomingCall at incoming
  split_ifs at incoming with same
  split at incoming
  · rename_i task other found present outgoing suspended
    cases incoming
    exact ⟨same, suspended, task, present⟩
  · cases incoming

/-- From a state where saved values are those of the switch, a `schedule()`
call is good exactly when the two slots agree. -/
theorem schedule_restores_iff {machine : Machine} (saved : SavedAtSwitch machine) :
    (∀ event, machine.schedule.2 = some event → FsBaseRestored event) ↔
      ∀ frame ∈ incomingCall machine,
        (savedFsBase machine frame.next).isSome ∧
          savedFsBase machine frame.next = savedFsBase machine machine.kernel.pickNext := by
  rw [schedule_event]
  cases incoming : incomingCall machine with
  | none => simp
  | some frame =>
      obtain ⟨different, suspended, task, present⟩ := incoming_call_picked incoming
      have own : savedFsBase machine machine.kernel.pickNext = some frame.fsAtSwitch := by
        simp only [savedFsBase, present, Option.map_some, if_neg different, Option.some.injEq]
        exact saved _ frame task different suspended present
      rw [own]
      simp only [Option.map_some, Option.some.injEq, forall_eq', FsBaseRestored, Option.mem_def]
      constructor
      · intro restored
        exact ⟨by rw [restored]; rfl, restored⟩
      · exact fun agree => agree.2

theorem scheduling_state_cases {machine before : Machine} {action : Action}
    (scheduling : schedulingState machine action = some before) :
    machine.halted = false ∧ machine.returning = false ∧
      (action = .schedule ∧ before = machine ∨
        action = .tick ∧ before = machine.tickCounted ∧ machine.irqsOn = true ∧
          machine.tickCounted.kernel.tickCount % 10 = 0) := by
  unfold schedulingState at scheduling
  by_cases stopped : machine.halted = true ∨ machine.returning = true
  · rw [if_pos stopped] at scheduling
    cases scheduling
  · rw [if_neg stopped] at scheduling
    refine ⟨by simp_all, by simp_all, ?_⟩
    cases action <;> simp only [Option.some.injEq, reduceCtorEq] at scheduling
    case tick =>
      by_cases due : machine.irqsOn = true ∧ machine.tickCounted.kernel.tickCount % 10 = 0
      · rw [if_pos due, Option.some.injEq] at scheduling
        exact .inr ⟨rfl, scheduling.symm, due⟩
      · rw [if_neg due] at scheduling
        cases scheduling
    case schedule => exact .inl ⟨rfl, scheduling.symm⟩

theorem step_schedules {machine before : Machine} {action : Action}
    (scheduling : schedulingState machine action = some before) :
    machine.step action = before.schedule := by
  obtain ⟨going, free, source⟩ := scheduling_state_cases scheduling
  unfold Machine.step
  rw [if_neg (by simp [going]), if_neg (by simp [free])]
  rcases source with ⟨rfl, rfl⟩ | ⟨rfl, rfl, enabled, due⟩
  · rfl
  · simp [Machine.perform, Machine.tick, enabled, due]

/-- A step that does not call `schedule()` resumes no one. -/
theorem step_without_schedule {machine : Machine} {action : Action}
    (scheduling : schedulingState machine action = none) :
    ∀ event, (machine.step action).2 = some event → FsBaseRestored event := by
  intro event emitted
  unfold Machine.step at emitted
  split_ifs at emitted with halted returning
  have moving : ¬(machine.halted = true ∨ machine.returning = true) ∨ action = .sysret := by
    by_cases leaving : action = .sysret
    · exact .inr leaving
    · exact .inl (by simp_all)
  have shape := perform_case machine action
  generalize performed : machine.perform action = result at shape emitted
  cases shape with
  | quiet origin evolves => cases emitted
  | switches source evolves others =>
      exfalso
      rcases source with ⟨rfl, rfl⟩ | ⟨rfl, rfl, enabled⟩
      · rcases moving with moving | leaving
        · simp [schedulingState, moving] at scheduling
        · cases leaving
      · rcases moving with moving | leaving
        · simp only [schedulingState, if_neg moving, ite_eq_right_iff, reduceCtorEq,
            imp_false, not_and] at scheduling
          by_cases enabled : machine.irqsOn = true
          · simp only [Machine.perform, enabled, if_true, Machine.tick,
              if_neg (scheduling enabled)] at performed
            rw [← performed] at emitted
            cases emitted
          · simp only [Machine.perform, if_neg enabled] at performed
            rw [← performed] at emitted
            cases emitted
        · cases leaving
  | halts => cases emitted
  | exits present => cases emitted
  | reaps found present => cases emitted; trivial
  | blocksOnChild absent living present => cases emitted
  | blocksOnTty present => cases emitted
  | blocksOnPipe must present => cases emitted
  | gathers unchosen => cases emitted
  | chooses gathered vacant => cases emitted
  | installs chosen => cases emitted; trivial
  | setsFsBase => cases emitted
  | writesFsBase => cases emitted
  | execs inside => cases emitted
  | movesStack outside => cases emitted
  | enters outside user => cases emitted
  | returns inside =>
      simp only [Machine.sysret, inside] at emitted
      cases emitted
      trivial

theorem scheduling_state_saved {machine before : Machine} {action : Action}
    (saved : SavedAtSwitch machine) (scheduling : schedulingState machine action = some before) :
    SavedAtSwitch before := by
  rcases (scheduling_state_cases scheduling).2.2 with ⟨-, rfl⟩ | ⟨-, rfl, -, -⟩
  · exact saved
  · exact saved_at_switch_evolves saved (tick_counted_evolves machine) rfl

theorem step_restores_iff {machine : Machine} (action : Action) (saved : SavedAtSwitch machine) :
    (∀ event, (machine.step action).2 = some event → FsBaseRestored event) ↔
      ResumedSlotsAgree machine action := by
  unfold ResumedSlotsAgree
  cases scheduling : schedulingState machine action with
  | none =>
      simp only [Option.mem_def, reduceCtorEq, false_implies, implies_true, iff_true]
      exact step_without_schedule scheduling
  | some before =>
      rw [step_schedules scheduling,
        schedule_restores_iff (scheduling_state_saved saved scheduling)]
      simp

/-- In a run from boot every resumed task finds its own `FS.base`, with no
empty slot met, exactly when at every resumption the slot recorded by the
suspended call agrees with the resumed one. -/
theorem fs_base_restored_iff (actions : List Action) :
    (∀ event ∈ kernelSystem.traceFrom kernelSystem.init actions, FsBaseRestored event) ↔
      kernelSystem.StepsMeet ResumedSlotsAgree kernelSystem.init actions :=
  EventSystem.trace_satisfies_iff SavedAtSwitch saved_at_switch_step
    (fun _ action saved => step_restores_iff action saved) actions saved_at_switch_boot

def period : List Action := List.replicate 10 .tick

/-- The idle task starts a user task, which sets its thread pointer and forks;
the child sets another one, and the parent is scheduled again. -/
def forkedThreadPointers : List Action :=
  [.spawnGather (.user 0x10000 0x19000 0x20000 0 0x7000), .spawnChoose, .spawnInstall, .schedule,
    .syscallEntry, .setFsBase 0x1000, .writeFsBase 0x1000, .sysret,
    .syscallEntry, .spawnGather (.fork 0x30000 0x39000 0x40000 0x7000), .spawnChoose,
    .spawnInstall, .sysret] ++ period ++
  [.syscallEntry, .setFsBase 0x2000, .writeFsBase 0x2000, .sysret] ++ period

/-- The parent had switched to the child's slot, so it resumes with the
child's thread pointer. -/
theorem fs_base_of_the_other_task_loaded :
    ¬∀ actions : List Action,
      ∀ event ∈ kernelSystem.traceFrom kernelSystem.init actions, FsBaseRestored event := by
  intro restored
  have wrong := restored forkedThreadPointers
    (.resumed ⟨1, by decide⟩ 0x1000 (some 0x2000)) (by decide +kernel)
  simp [FsBaseRestored] at wrong

end Ferrugem.FsBaseSwitching
