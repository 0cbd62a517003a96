import Ferrugem.TaskLifecycle

/-!
# Completed kernel operations

The `SYSCALL` path and the exception handlers run with interrupts off, so
`exit_current` and the creation functions are not interrupted there.
`operationSystem` is the machine seen at that grain: an operation is the list
of its sections, run to the end. Its runs are runs of the machine in which no
operation is cut in two, so what it keeps is what holds between operations.
-/

namespace Ferrugem.KernelOperations

open Ferrugem.ProcessModel Ferrugem.SchedulerModel
open Ferrugem.KernelMachine Ferrugem.KernelEvolution Ferrugem.TaskLifecycle

set_option autoImplicit false

/-- The sections that are not an operation by themselves are those of
`exit_current` and of the creation functions. -/
def isWhole : Action → Bool
  | .exitMark _ => false
  | .wakeChildWaiters _ _ => false
  | .signalParent _ => false
  | .wakeClosedPipeReaders => false
  | .spawnGather _ => false
  | .spawnChoose => false
  | .spawnInstall => false
  | _ => true

inductive Operation where
  | act (action : Action) (whole : isWhole action = true)
  | exitCurrent (code : BitVec 32)
  | spawn (kind : Machine.SpawnKind)

def Operation.actions (machine : Machine) : Operation → List Action
  | .act action _ => [action]
  | .exitCurrent code =>
      match machine.kernel.currentTask with
      | some task =>
          [.exitMark code, .wakeChildWaiters task.pid task.ppid, .signalParent task.ppid,
            .wakeClosedPipeReaders, .schedule]
      | none => [.schedule]
  | .spawn kind => [.spawnGather kind, .spawnChoose, .spawnInstall]

def operationSystem : EventSystem Machine Operation Event where
  init := bootMachine
  step := fun machine operation =>
    (kernelSystem.runFrom machine (operation.actions machine), none)

/-- The kernel after the sections of `exit_current` before its `schedule()`. -/
def exitKernel (kernel : Kernel) (code : BitVec 32) (task : Task) : Kernel :=
  (((kernel.exitMark code).wakeChildWaiters task.pid task.ppid).signalParent
    task.ppid sigchld).wakeClosedPipeReaders

inductive OperationCase (machine : Machine) : Operation → Machine → Prop where
  | idle {operation : Operation} : OperationCase machine operation machine
  | acts {action : Action} {whole : isWhole action = true}
      (running : machine.halted = false) (going : machine.returning = false ∨ action = .sysret) :
      OperationCase machine (.act action whole) (machine.perform action).1
  | exits {code : BitVec 32} {task : Task} (present : machine.kernel.currentTask = some task) :
      OperationCase machine (.exitCurrent code)
        (machine.withKernel (exitKernel machine.kernel code task)).schedule.1
  | schedules {code : BitVec 32} :
      OperationCase machine (.exitCurrent code) machine.schedule.1
  | fails {kind : Machine.SpawnKind} {spawning : Option Spawning} :
      OperationCase machine (.spawn kind) (machine.setSpawning spawning)
  | spawns {kind : Machine.SpawnKind} {slot : Slot} {request : Kernel.SpawnRequest}
      {userRsp : Nat} (running : machine.halted = false) (going : machine.returning = false)
      (gathered : machine.spawnRequest kind = some (request, userRsp))
      (vacant : machine.kernel.firstVacant = some slot) :
      OperationCase machine (.spawn kind)
        { machine.setSpawning none with
          kernel := machine.kernel.install slot request
          savedStacks := Function.update machine.savedStacks slot
            (.fresh (Context.entering userRsp) request.child.isUser) }

/-- A machine that is stopped, or that only waits for its `sysretq`. -/
theorem run_stays {machine : Machine} {actions : List Action}
    (stopped : machine.halted = true ∨ machine.returning = true ∧ .sysret ∉ actions) :
    kernelSystem.runFrom machine actions = machine := by
  induction actions with
  | nil => rfl
  | cons action rest ih =>
      have stays : (kernelSystem.step machine action).1 = machine := by
        change (machine.step action).1 = machine
        unfold Machine.step
        rcases stopped with halted | ⟨returning, absent⟩
        · rw [if_pos halted]
        · split_ifs with halted blocked
          · rfl
          · rfl
          · exact absurd ⟨returning, fun leaving => absent (by simp [leaving])⟩ blocked
      simp only [EventSystem.runFrom]
      rw [stays]
      apply ih
      rcases stopped with halted | ⟨returning, absent⟩
      · exact .inl halted
      · exact .inr ⟨returning, fun member => absent (List.mem_cons_of_mem _ member)⟩

theorem step_performs {machine : Machine} {action : Action} (running : machine.halted = false)
    (going : machine.returning = false) : machine.step action = machine.perform action := by
  unfold Machine.step
  rw [if_neg (by simp [running]), if_neg (by simp [going])]

theorem exit_run {machine : Machine} {code : BitVec 32} {task : Task}
    (running : machine.halted = false) (going : machine.returning = false)
    (present : machine.kernel.currentTask = some task) :
    kernelSystem.runFrom machine ((Operation.exitCurrent code).actions machine) =
      (machine.withKernel (exitKernel machine.kernel code task)).schedule.1 := by
  simp only [Operation.actions, present, EventSystem.runFrom, kernelSystem]
  have same : ∀ kernel : Kernel, ∀ action,
      (machine.withKernel kernel).step action = (machine.withKernel kernel).perform action :=
    fun kernel action => step_performs running going
  rw [step_performs running going]
  simp only [Machine.perform]
  rw [same]
  simp only [Machine.perform]
  change ((((machine.withKernel _).step _).1.step _).1.step _).1 = _
  rw [same]
  simp only [Machine.perform]
  change (((machine.withKernel _).step _).1.step _).1 = _
  rw [same]
  simp only [Machine.perform]
  change ((machine.withKernel _).step _).1 = _
  rw [same]
  rfl

theorem spawn_run {machine : Machine} {kind : Machine.SpawnKind}
    (running : machine.halted = false) (going : machine.returning = false) :
    OperationCase machine (.spawn kind)
      (kernelSystem.runFrom machine ((Operation.spawn kind).actions machine)) := by
  have same : ∀ spawning, ∀ action, (machine.setSpawning spawning).step action =
      (machine.setSpawning spawning).perform action :=
    fun spawning action => step_performs running going
  simp only [Operation.actions, EventSystem.runFrom, kernelSystem]
  rw [step_performs running going]
  simp only [Machine.perform, Machine.spawnGather]
  rw [same]
  simp only [Machine.perform]
  cases gathered : machine.spawnRequest kind with
  | none =>
      change OperationCase machine _ ((machine.setSpawning none).step .spawnInstall).1
      rw [same]
      exact .fails
  | some pair =>
      cases vacant : machine.kernel.firstVacant with
      | none =>
          have chosen : (machine.setSpawning (some (.gathered pair.1 pair.2))).spawnChoose =
              machine.setSpawning none := by
            simp [Machine.spawnChoose, Machine.setSpawning, vacant]
          simp only [Option.map_some]
          rw [chosen, same]
          exact .fails
      | some slot =>
          have chosen : (machine.setSpawning (some (.gathered pair.1 pair.2))).spawnChoose =
              machine.setSpawning (some (.chosen slot pair.1 pair.2)) := by
            simp [Machine.spawnChoose, Machine.setSpawning, vacant]
          simp only [Option.map_some]
          rw [chosen, same]
          exact .spawns running going gathered vacant

theorem operation_case (machine : Machine) (operation : Operation) :
    OperationCase machine operation (operationSystem.step machine operation).1 := by
  change OperationCase machine operation (kernelSystem.runFrom machine (operation.actions machine))
  by_cases running : machine.halted = true
  · rw [run_stays (.inl running)]
    exact .idle
  · simp only [Bool.not_eq_true] at running
    cases operation with
    | act action whole =>
        change OperationCase machine _ (machine.step action).1
        exact step_rule (fun result => OperationCase machine (.act action whole) result.1) .idle
          fun running going => .acts running going
    | exitCurrent code =>
        by_cases going : machine.returning = true
        · rw [run_stays (.inr ⟨going, by
            simp only [Operation.actions]
            split <;> simp⟩)]
          exact .idle
        · simp only [Bool.not_eq_true] at going
          cases present : machine.kernel.currentTask with
          | some task =>
              rw [exit_run running going present]
              exact .exits present
          | none =>
              simp only [Operation.actions, present]
              change OperationCase machine _ (machine.step .schedule).1
              rw [step_performs running going]
              exact .schedules
    | spawn kind =>
        by_cases going : machine.returning = true
        · rw [run_stays (.inr ⟨going, by simp [Operation.actions]⟩)]
          exact .idle
        · simp only [Bool.not_eq_true] at going
          exact spawn_run running going

end Ferrugem.KernelOperations
