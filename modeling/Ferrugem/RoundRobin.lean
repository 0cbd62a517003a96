import Ferrugem.Library.CyclicScan
import Ferrugem.ChildWaiters

/-!
# Which task runs next

`schedule` searches the slots `1..MAX_TASKS` for a ready task with shifted
modular arithmetic. `following` is the cyclic order it searches in, the current
slot last; from slot 0 the search starts at slot 1. Slot 0 holds the idle task,
whose code after the boot is `arch::halt`: it takes interrupts and makes no
call that blocks or exits.
-/

namespace Ferrugem.RoundRobin

open Ferrugem.ProcessModel Ferrugem.SchedulerModel Ferrugem.KernelMachine
open Ferrugem.KernelEvolution Ferrugem.TaskLifecycle Ferrugem.ChildWaiters CyclicScan

set_option autoImplicit false

/-- The next slot in the cycle `1, 2, …, 63`, and slot 1 after slot 0. -/
def following (slot : Slot) : Slot :=
  if next : slot.val + 1 < maxTasks then ⟨slot.val + 1, next⟩ else firstSlot

theorem following_val (slot : Slot) :
    (following slot).val = if slot.val + 1 < 64 then slot.val + 1 else 1 := by
  unfold following
  split_ifs <;> first | rfl | contradiction

theorem scan_slot_val (current : Slot) (i : Nat) :
    (Kernel.scanSlot current i).val =
      ((if current.val = 0 then 1 else current.val % 63 + 1) - 1 + i) % 63 + 1 :=
  rfl

theorem slot_lt (slot : Slot) : slot.val < 64 := slot.isLt

theorem slot_pos {slot : Slot} (other : slot ≠ idleSlot) : 0 < slot.val :=
  Nat.pos_of_ne_zero fun zero => other (Fin.ext zero)

theorem scan_slot_eq (current : Slot) (i : Nat) :
    Kernel.scanSlot current i = following^[i + 1] current := by
  induction i with
  | zero =>
      have bound := slot_lt current
      apply Fin.ext
      rw [Function.iterate_succ_apply', Function.iterate_zero, id, scan_slot_val, following_val]
      split_ifs <;> omega
  | succ i ih =>
      apply Fin.ext
      rw [Function.iterate_succ_apply', ← ih, following_val, scan_slot_val, scan_slot_val]
      split_ifs <;> omega

theorem pick_next_eq (kernel : Kernel) :
    kernel.pickNext = (firstAfter following 63 kernel.isReady kernel.current).getD idleSlot := by
  have scans : Kernel.scanSlot kernel.current = fun i => following^[i + 1] kernel.current :=
    funext (scan_slot_eq kernel.current)
  simp only [Kernel.pickNext, firstAfter, scans, maxTasks]

theorem following_ne_idle (slot : Slot) {steps : Nat} (positive : 0 < steps) :
    following^[steps] slot ≠ idleSlot := by
  obtain ⟨i, rfl⟩ := Nat.exists_eq_succ_of_ne_zero positive.ne'
  rw [Nat.succ_eq_add_one, ← scan_slot_eq]
  intro idle
  have zero := congrArg Fin.val idle
  rw [scan_slot_val] at zero
  exact Nat.succ_ne_zero _ zero

theorem exists_following (start : Slot) {slot : Slot} (other : slot ≠ idleSlot) :
    ∃ steps, 0 < steps ∧ steps ≤ 63 ∧ following^[steps] start = slot := by
  refine ⟨(slot.val + 63 - Kernel.searchStart start) % 63 + 1, by omega, by omega, ?_⟩
  rw [← scan_slot_eq]
  have positive := slot_pos other
  have startBound := slot_lt start
  have slotBound := slot_lt slot
  apply Fin.ext
  rw [scan_slot_val, Kernel.searchStart]
  simp only [maxTasks]
  split_ifs <;> omega

theorem following_round {slot : Slot} (other : slot ≠ idleSlot) {steps : Nat}
    (positive : 0 < steps) (bounded : steps ≤ 63) :
    following^[steps] slot = slot ↔ steps = 63 := by
  obtain ⟨i, rfl⟩ := Nat.exists_eq_succ_of_ne_zero positive.ne'
  have nonzero := slot_pos other
  have slotBound := slot_lt slot
  rw [Nat.succ_eq_add_one, ← scan_slot_eq, Fin.ext_iff, scan_slot_val, if_neg nonzero.ne']
  omega

/-- The calls that may end or suspend the task that makes them. -/
def waitsOrExits : Action → Bool
  | .exitMark _ | .waitpid _ _ | .blockOnTty _ | .blockOnPipe _ => true
  | _ => false

def IdleHalts (machine : Machine) (action : Action) : Prop :=
  machine.kernel.current = idleSlot → waitsOrExits action = false

def IdleAwake (tasks : Slot → Option Task) : Prop :=
  ∀ task, tasks idleSlot = some task → task.state ≠ .blocked ∧ task.state ≠ .zombie

theorem idle_awake_persists {before after : Slot → Option Task} (awake : IdleAwake before)
    (persists : Persists before after) : IdleAwake after := by
  intro task present
  have asleep : ¬(task.state = .blocked ∨ task.state = .zombie) := by
    intro waits
    obtain ⟨prior, there, state, _⟩ := persists idleSlot task present waits
    rw [← state] at waits
    exact waits.elim (awake prior there).1 (awake prior there).2
  exact not_or.mp asleep

theorem idle_awake_set_other {kernel : Kernel} {slot : Slot} {task : Task}
    (other : slot ≠ idleSlot) (awake : IdleAwake kernel.tasks) :
    IdleAwake (kernel.setTask slot task).tasks := by
  intro found present
  rw [set_task_other kernel task other.symm] at present
  exact awake found present

theorem idle_awake_deliver_slot {kernel : Kernel} {slot : Slot} (other : slot ≠ idleSlot)
    (awake : IdleAwake kernel.tasks) : IdleAwake (kernel.deliverSlot slot).tasks := by
  rcases deliver_slot_cases kernel slot with ⟨task, pending, present, _, killed⟩ | ⟨_, stirred⟩
  · rw [killed]
    apply idle_awake_persists _ (persists_spares (wake_child_waiters_stirred _ _ _).spares)
    exact @idle_awake_set_other { kernel with pool := FdTable.closeAll kernel.pool task.fdTable }
      _ _ other awake
  · exact idle_awake_persists awake (persists_spares stirred.spares)

theorem idle_awake_deliver_slots {slots : List Slot} (others : ∀ slot ∈ slots, slot ≠ idleSlot)
    {kernel : Kernel} (awake : IdleAwake kernel.tasks) :
    IdleAwake (slots.foldl Kernel.deliverSlot kernel).tasks := by
  induction slots generalizing kernel with
  | nil => exact awake
  | cons slot rest ih =>
      apply ih
      · exact fun later member => others later (List.mem_cons_of_mem slot member)
      · exact idle_awake_deliver_slot (others slot List.mem_cons_self) awake

theorem idle_awake_tick_counted {machine : Machine} (awake : IdleAwake machine.kernel.tasks) :
    IdleAwake machine.tickCounted.kernel.tasks := by
  unfold Machine.tickCounted
  dsimp only [Machine.withKernel]
  split_ifs
  · exact idle_awake_deliver_slots (fun slot => (mem_task_slots_iff slot).mp) awake
  · exact awake

theorem idle_awake_step {machine : Machine} {action : Action}
    (awake : IdleAwake machine.kernel.tasks) (halts : IdleHalts machine action) :
    IdleAwake (machine.step action).1.kernel.tasks := by
  have busy : waitsOrExits action = true → machine.kernel.current ≠ idleSlot := by
    intro calls idle
    rw [halts idle] at calls
    cases calls
  have shape := step_case machine action
  generalize machine.step action = result at shape ⊢
  cases shape with
  | quiet source evolves =>
      cases source with
      | stirs stirred => exact idle_awake_persists awake (persists_spares stirred.spares)
      | calls call =>
          exact idle_awake_persists awake (persists_spares (descriptor_kernel_spares call))
      | delivers enabled => exact idle_awake_tick_counted awake
  | @switches _ before source evolves others =>
      apply idle_awake_persists _ (schedule_persists before).1
      rcases source with ⟨_, rfl⟩ | ⟨_, rfl, _⟩
      · exact awake
      · exact idle_awake_tick_counted awake
  | halts unchanged => exact awake
  | exits present => exact idle_awake_set_other (busy rfl) awake
  | reaps found present =>
      apply idle_awake_persists awake
      apply persists_update
      intro task gone
      cases gone
  | blocksOnChild absent living present => exact idle_awake_set_other (busy rfl) awake
  | blocksOnTty present =>
      exact @idle_awake_set_other { machine.kernel with
        ttyWaiter := some machine.kernel.current } _ _ (busy rfl) awake
  | @blocksOnPipe index task must present =>
      exact @idle_awake_set_other { machine.kernel with
        pipeWaiters := Function.update machine.kernel.pipeWaiters index
          (some machine.kernel.current) } _ _ (busy rfl) awake
  | gathers unchosen => exact awake
  | chooses gathered vacant => exact awake
  | @installs slot request userRsp chosen =>
      apply idle_awake_persists awake
      apply persists_update
      intro task present
      cases present
      rw [request.ready]
      decide
  | setsFsBase =>
      exact idle_awake_persists awake (persists_modify_current fun _ => ⟨rfl, rfl, rfl, rfl⟩)
  | writesFsBase => exact awake
  | execs inside =>
      simp only [Machine.execve, inside]
      exact idle_awake_persists awake (persists_modify_current fun _ => ⟨rfl, rfl, rfl, rfl⟩)
  | movesStack outside => exact awake
  | enters outside user => exact awake
  | returns inside =>
      rw [sysret_kernel]
      exact awake

theorem idle_awake_boot : IdleAwake bootMachine.kernel.tasks := by
  intro task present
  have idle : Task.idle = task := Option.some.inj present
  rw [← idle]
  decide

theorem reached_idle_awake {actions : List Action}
    (halts : kernelSystem.StepsMeet IdleHalts kernelSystem.init actions) :
    IdleAwake (kernelSystem.runFrom kernelSystem.init actions).kernel.tasks :=
  EventSystem.run_preserves (fun machine : Machine => IdleAwake machine.kernel.tasks)
    (fun _ _ => idle_awake_step) idle_awake_boot halts

/-- The slot is the first ready one in the cyclic order after the current
slot, which comes last, and the idle slot exactly when no other is ready. -/
structure RoundRobinChoice (kernel : Kernel) (next : Slot) : Prop where
  first : next ≠ idleSlot →
    ∃ steps, FirstReady following 63 kernel.isReady kernel.current steps next
  idle : next = idleSlot ↔ ∀ slot, slot ≠ idleSlot → kernel.isReady slot = false
  currentLast : kernel.current ≠ idleSlot →
    ∀ steps, 0 < steps → steps ≤ 63 → (following^[steps] kernel.current = kernel.current ↔
      steps = 63)

theorem pick_next_choice (kernel : Kernel) : RoundRobinChoice kernel kernel.pickNext := by
  rw [pick_next_eq]
  cases chosen : firstAfter following 63 kernel.isReady kernel.current with
  | none =>
      refine ⟨fun other => absurd rfl other, ?_, fun other _ => following_round other⟩
      simp only [Option.getD_none, true_iff]
      intro slot other
      obtain ⟨steps, positive, bounded, reached⟩ := exists_following kernel.current other
      rw [← reached]
      exact first_after_none.mp chosen steps positive bounded
  | some found =>
      obtain ⟨steps, first⟩ := first_after_some chosen
      have other : found ≠ idleSlot := first.reached ▸ following_ne_idle _ first.positive
      refine ⟨fun _ => ⟨steps, first⟩, ?_, fun other _ => following_round other⟩
      simp only [Option.getD_some, other, false_iff, not_forall]
      exact ⟨found, other, by simp [first.isReady]⟩

theorem schedule_current {machine : Machine} (returned : machine.schedule.1.halted = false) :
    machine.schedule.1.kernel.current = machine.kernel.pickNext := by
  unfold Machine.schedule at returned ⊢
  dsimp only at returned ⊢
  split_ifs at returned ⊢ with same
  · exact same.symm
  · split at returned
    · rename_i nextTask prevTask incoming outgoing
      obtain ⟨irqsOn, fsBase, halted, shape⟩ := resume_keeps
        (machine.switchOut machine.kernel.pickNext prevTask nextTask) machine.kernel.pickNext
        (machine.savedStacks machine.kernel.pickNext)
      rw [shape]
      rfl
    · cases returned

theorem ready_awake {kernel : Kernel} {slot : Slot} {task : Task}
    (isReady : kernel.isReady slot = true) (present : kernel.tasks slot = some task) :
    task.state ≠ .blocked ∧ task.state ≠ .zombie := by
  simp only [Kernel.isReady, present, Option.any_some, beq_iff_eq] at isReady
  rw [isReady]
  decide

theorem pick_next_awake {kernel : Kernel} (awake : IdleAwake kernel.tasks) {task : Task}
    (present : kernel.tasks kernel.pickNext = some task) :
    task.state ≠ .blocked ∧ task.state ≠ .zombie := by
  by_cases idle : kernel.pickNext = idleSlot
  · rw [idle] at present
    exact awake task present
  · obtain ⟨steps, first⟩ := (pick_next_choice kernel).first idle
    exact ready_awake first.isReady present

theorem ready_slot_runs {kernels : Nat → Kernel} {slot : Slot} (other : slot ≠ idleSlot)
    (calls : ∀ call, (kernels (call + 1)).current = (kernels call).pickNext)
    (stays : ∀ call, (kernels call).isReady slot = true) :
    ∃ call, 0 < call ∧ call ≤ 63 ∧ (kernels call).current = slot := by
  obtain ⟨distance, positive, bounded, away⟩ := exists_following (kernels 0).current other
  have moves : ∀ call place, firstAfter following 63 (kernels call).isReady
      (kernels call).current = some place → (kernels (call + 1)).current = place := by
    intro call place chosen
    rw [calls, pick_next_eq, chosen, Option.getD_some]
  obtain ⟨call, later, within, runs⟩ :=
    @found_within Slot following 63 slot distance positive bounded
      (fun call => (kernels call).isReady) (fun call => (kernels call).current) moves stays away
  exact ⟨call, later, within.trans bounded, runs⟩

/-- For every task table the choice is round-robin and a `schedule` call that
returns has made it; in every run the chosen task is neither blocked nor a
zombie; and whatever the other tasks do between the calls, a task that is ready
at each of them runs within 63 calls. -/
theorem schedule_round_robin :
    (∀ kernel : Kernel, RoundRobinChoice kernel kernel.pickNext) ∧
    (∀ machine : Machine, machine.schedule.1.halted = false →
      machine.schedule.1.kernel.current = machine.kernel.pickNext) ∧
    (∀ (kernel : Kernel) (task : Task), kernel.tasks kernel.pickNext = some task →
      kernel.pickNext ≠ idleSlot → task.state ≠ .blocked ∧ task.state ≠ .zombie) ∧
    (∀ actions, kernelSystem.StepsMeet IdleHalts kernelSystem.init actions →
      let kernel := (kernelSystem.runFrom kernelSystem.init actions).kernel
      ∀ task, kernel.tasks kernel.pickNext = some task →
        task.state ≠ .blocked ∧ task.state ≠ .zombie) ∧
    (∀ (kernels : Nat → Kernel) (slot : Slot), slot ≠ idleSlot →
      (∀ call, (kernels (call + 1)).current = (kernels call).pickNext) →
      (∀ call, (kernels call).isReady slot = true) →
      ∃ call, 0 < call ∧ call ≤ 63 ∧ (kernels call).current = slot) := by
  refine ⟨pick_next_choice, fun _ => schedule_current, ?_, ?_, fun _ _ => ready_slot_runs⟩
  · intro kernel task present other
    obtain ⟨steps, first⟩ := (pick_next_choice kernel).first other
    exact ready_awake first.isReady present
  · intro actions halts kernel task present
    exact pick_next_awake (reached_idle_awake halts) present

end Ferrugem.RoundRobin
