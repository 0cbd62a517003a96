import Ferrugem.ClosedPipeReaders

/-!
# `kill`

`sys_kill` ends the caller at once if it sends itself one of the signals of
`is_fatal`; every other task dies at the next `deliver_all_signals`, which has a list of
its own. The two differ on `SIGHUP`, on the idle task and on pid 0, and `sys_kill`
looks at the low byte of the signal number only.
-/

namespace Ferrugem.KillSyscall

open Ferrugem.PipePoolModel Ferrugem.ProcessModel Ferrugem.SchedulerModel
open Ferrugem.DescriptorSyscalls Ferrugem.KernelMachine Ferrugem.KernelEvolution
open Ferrugem.TaskLifecycle Ferrugem.KernelOperations Ferrugem.ClosedPipeReaders

set_option autoImplicit false

def exitCurrent (machine : Machine) (code : BitVec 32) : Machine :=
  match machine.kernel.currentTask with
  | some task => (machine.withKernel (exitKernel machine.kernel code task)).schedule.1
  | none => machine.schedule.1

/-- `sig as u8` is the remainder. A call that `schedule` does not come back to has no
result. -/
def sysKill (machine : Machine) (targetPid sig : Nat) : Machine × Option Int :=
  let sig := sig % 256
  if 31 < sig then (machine, some (-22))
  else
    let exits := endsCaller machine.kernel targetPid sig
    let later := if exits then exitCurrent machine (BitVec.ofNat 32 sig) else machine
    if exits && (later.halted || later.kernel.current != machine.kernel.current) then (later, none)
    else
      let raised := later.kernel.raiseSignalToPid targetPid sig
      (later.withKernel raised.1, some (if raised.2 then 0 else -3))

def isZombie (kernel : Kernel) (slot : Slot) : Bool :=
  (kernel.tasks slot).any fun task => task.state == .zombie

/-- The live task that `raise_signal_to_pid` finds. -/
def targetOf (kernel : Kernel) (pid : Nat) : Option Slot :=
  (List.finRange maxTasks).find? fun slot =>
    (kernel.tasks slot).any fun task => task.pid == pid && task.state != .zombie

def runningAs (machine : Machine) (slot : Slot) : Machine :=
  machine.withKernel { machine.kernel with current := slot }

/-- The target dies at the next delivery after the running task has sent the signal. -/
def DiesRemotely (machine : Machine) (pid sig : Nat) (slot : Slot) : Prop :=
  isZombie (sysKill machine pid sig).1.kernel.deliverAllSignals slot = true

/-- The target dies at once or at the next delivery after it has sent the signal itself. -/
def DiesAlone (machine : Machine) (pid sig : Nat) (slot : Slot) : Prop :=
  let sent := (sysKill (runningAs machine slot) pid sig).1.kernel
  isZombie sent slot = true ∨ isZombie sent.deliverAllSignals slot = true

structure KillsAgree (machine : Machine) (pid sig : Nat) (slot : Slot) : Prop where
  rejects : 31 < sig → sysKill machine pid sig = (machine, some (-22)) ∧
    sysKill (runningAs machine slot) pid sig = (runningAs machine slot, some (-22))
  agrees : sig ≤ 31 → (DiesRemotely machine pid sig slot ↔ DiesAlone machine pid sig slot)

/-- The low byte gives a large number away, and a fatal signal reaches the target by
delivery as well. -/
structure Reaches (machine : Machine) (pid sig : Nat) (slot : Slot) : Prop where
  narrow : 31 < sig → 31 < sig % 256
  delivered : isFatal sig = true → slot ≠ idleSlot ∧
    (sig ≠ sighup ∧ pid ≠ 0 ∨ (machine.kernel.tasks slot).any isDoomed = true)

section

variable {kernel : Kernel} {slot : Slot}

theorem zombie_of_stirred {before after : Kernel} (stirred : KernelStirred before after)
    (slot : Slot) : isZombie after slot = isZombie before slot := by
  have related := stirred.tasks slot
  unfold isZombie
  generalize before.tasks slot = prior at related ⊢
  generalize after.tasks slot = later at related ⊢
  cases related with
  | none => rfl
  | some change =>
      rw [Option.any_some, Option.any_some, Bool.eq_iff_iff, beq_iff_eq, beq_iff_eq]
      exact change.zombie

theorem deliver_slot_zombie (kernel : Kernel) (slot : Slot) :
    isZombie (kernel.deliverSlot slot) slot = true ↔
      isZombie kernel slot = true ∨ (kernel.tasks slot).any isDoomed = true := by
  rcases deliver_slot_cases kernel slot with ⟨task, pending, present, doomed, killed⟩ |
    ⟨spared, stirred⟩
  · refine iff_of_true ?_ (.inr ?_)
    · rw [killed, zombie_of_stirred (wake_child_waiters_stirred _ _ _)]
      simp [isZombie]
    · rw [present, Option.any_some]
      exact doomed
  · rw [zombie_of_stirred stirred]
    refine (or_iff_left ?_).symm
    intro doomed
    obtain ⟨task, present, lethal⟩ := Option.any_eq_true .. |>.mp doomed
    simp [present, lethal] at spared

theorem deliver_slot_elsewhere {other : Slot} (different : other ≠ slot) :
    isZombie (kernel.deliverSlot slot) other = isZombie kernel other := by
  rcases deliver_slot_cases kernel slot with ⟨task, pending, present, doomed, killed⟩ |
    ⟨spared, stirred⟩
  · rw [killed, zombie_of_stirred (wake_child_waiters_stirred _ _ _)]
    unfold isZombie
    rw [set_task_other _ _ different]
  · exact zombie_of_stirred stirred other

theorem deliver_list_zombie {slots : List Slot} (distinct : slots.Nodup) (kernel : Kernel)
    (slot : Slot) :
    isZombie (slots.foldl Kernel.deliverSlot kernel) slot = true ↔
      isZombie kernel slot = true ∨ slot ∈ slots ∧ (kernel.tasks slot).any isDoomed = true := by
  induction slots generalizing kernel with
  | nil => simp
  | cons first rest ih =>
      obtain ⟨notRest, restDistinct⟩ := List.nodup_cons.mp distinct
      rw [List.foldl_cons, ih restDistinct, List.mem_cons]
      by_cases same : slot = first
      · subst same
        rw [deliver_slot_zombie]
        simp [notRest]
      · rw [deliver_slot_elsewhere same, (deliver_slot_other same ⟨0, by decide⟩).1]
        simp [same]

theorem deliver_all_zombie (kernel : Kernel) (slot : Slot) :
    isZombie kernel.deliverAllSignals slot = true ↔
      isZombie kernel slot = true ∨
        slot ≠ idleSlot ∧ (kernel.tasks slot).any isDoomed = true := by
  rw [← mem_task_slots_iff]
  exact deliver_list_zombie (by decide) kernel slot

theorem sig_bit_and (first second : Nat) (small : first ≤ 31) (bound : second ≤ 31) :
    sigBit first &&& sigBit second = if first = second then sigBit first else 0 := by
  have every : ∀ i ≤ 31, ∀ j ≤ 31,
      sigBit i &&& sigBit j = if i = j then sigBit i else 0 := by decide +kernel
  exact every first small second bound

theorem has_signal_raise (task : Task) {sig other : Nat} (small : sig ≤ 31)
    (positive : 0 < other) (bound : other ≤ 31) :
    (task.raiseSignal sig).hasSignal other = (sig == other || task.hasSignal other) := by
  have bit : sigBit other ≠ 0 := by
    have every : ∀ i ≤ 31, 0 < i → sigBit i ≠ 0 := by decide +kernel
    exact every other bound positive
  unfold Task.hasSignal Task.raiseSignal
  dsimp only
  rw [BitVec.and_or_distrib_right, sig_bit_and sig other small bound]
  by_cases same : sig = other
  · subst same
    rw [if_pos rfl, beq_self_eq_true, Bool.true_or, bne_iff_ne]
    exact fun none => bit (BitVec.or_eq_zero_iff.mp none).2
  · rw [if_neg same, beq_false_of_ne same, Bool.false_or]
    exact congrArg (· != 0) BitVec.or_zero

theorem lethal_raise_list (task : Task) {sig : Nat} (small : sig ≤ 31) {signals : List Nat}
    (bounds : ∀ other ∈ signals, 0 < other ∧ other ≤ 31) :
    signals.any (task.raiseSignal sig).hasSignal =
      (signals.contains sig || signals.any task.hasSignal) := by
  induction signals with
  | nil => rfl
  | cons first rest ih =>
      obtain ⟨here, later⟩ := List.forall_mem_cons.mp bounds
      rw [List.any_cons, ih later, has_signal_raise task small here.1 here.2, List.contains_cons,
        List.any_cons]
      ac_rfl

theorem lethal_raise (task : Task) {sig : Nat} (small : sig ≤ 31) :
    lethalSignals.any (task.raiseSignal sig).hasSignal =
      (lethalSignals.contains sig || lethalSignals.any task.hasSignal) :=
  lethal_raise_list task small (by decide)

theorem doomed_wake (task : Task) : isDoomed (Kernel.wake task) = isDoomed task := by
  unfold Kernel.wake
  split_ifs with waiting
  · simp only [isDoomed, waiting]
    rfl
  · rfl

theorem target_live {pid : Nat} (target : targetOf kernel pid = some slot) :
    ∃ task, kernel.tasks slot = some task ∧ task.pid = pid ∧ task.state ≠ .zombie := by
  unfold targetOf at target
  have found := List.find?_some target
  obtain ⟨task, present, live⟩ := Option.any_eq_true .. |>.mp found
  simp only [Bool.and_eq_true, bne_iff_ne, beq_iff_eq] at live
  exact ⟨task, present, live⟩

theorem target_not_zombie {pid : Nat} (target : targetOf kernel pid = some slot) :
    isZombie kernel slot = false := by
  obtain ⟨task, present, _, live⟩ := target_live target
  rw [isZombie, present, Option.any_some, beq_eq_false_iff_ne]
  exact live

/-- The target after `raise_signal_to_pid`. -/
theorem raise_doomed {pid sig : Nat} (small : sig ≤ 31) (target : targetOf kernel pid = some slot) :
    ((kernel.raiseSignalToPid pid sig).1.tasks slot).any isDoomed =
      (lethalSignals.contains sig || (kernel.tasks slot).any isDoomed) := by
  obtain ⟨task, present, _, live⟩ := target_live target
  have alive : (task.state != .zombie) = true := bne_iff_ne.mpr live
  unfold targetOf at target
  unfold Kernel.raiseSignalToPid Kernel.raiseAndWake
  rw [target]
  dsimp only
  rw [present]
  dsimp only
  rw [set_task_same, Option.any_some, Option.any_some, doomed_wake]
  unfold isDoomed
  have sameState : (task.raiseSignal sig).state = task.state := rfl
  rw [lethal_raise task small, alive, sameState, alive, Bool.true_and, Bool.true_and]

theorem raise_zombie (pid sig : Nat) :
    isZombie (kernel.raiseSignalToPid pid sig).1 slot = isZombie kernel slot :=
  zombie_of_stirred (raise_signal_to_pid_stirred kernel pid sig) slot

theorem raised_delivered {pid sig : Nat} (small : sig ≤ 31)
    (target : targetOf kernel pid = some slot) :
    isZombie (kernel.raiseSignalToPid pid sig).1.deliverAllSignals slot = true ↔
      slot ≠ idleSlot ∧
        (lethalSignals.contains sig = true ∨ (kernel.tasks slot).any isDoomed = true) := by
  rw [deliver_all_zombie, raise_zombie, target_not_zombie target, raise_doomed small target,
    Bool.or_eq_true]
  simp

def FateKept (slot : Slot) (before after : Kernel) : Prop :=
  isZombie after slot = isZombie before slot ∧
    (after.tasks slot).any isDoomed = (before.tasks slot).any isDoomed

theorem FateKept.trans {first second third : Kernel} (left : FateKept slot first second)
    (right : FateKept slot second third) : FateKept slot first third :=
  ⟨right.1.trans left.1, right.2.trans left.2⟩

theorem fate_of_same {before after : Kernel} (same : after.tasks slot = before.tasks slot) :
    FateKept slot before after := by
  unfold FateKept isZombie
  rw [same]
  exact ⟨rfl, rfl⟩

theorem fate_set_task {changed : Slot} {before after : Task}
    (present : kernel.tasks changed = some before)
    (zombie : (after.state == .zombie) = (before.state == .zombie))
    (doomed : isDoomed after = isDoomed before) (slot : Slot) :
    FateKept slot kernel (kernel.setTask changed after) := by
  by_cases here : slot = changed
  · subst here
    unfold FateKept isZombie
    rw [set_task_same, present]
    exact ⟨zombie, doomed⟩
  · exact fate_of_same (set_task_other kernel after here)

theorem fate_wake_slot (woken slot : Slot) : FateKept slot kernel (kernel.wakeSlot woken) := by
  refine ⟨zombie_of_stirred (wake_slot_stirred kernel woken) slot, ?_⟩
  unfold Kernel.wakeSlot
  cases present : kernel.tasks woken with
  | none => rfl
  | some task =>
      by_cases here : slot = woken
      · subst here
        dsimp only
        rw [set_task_same, present]
        exact doomed_wake task
      · dsimp only
        rw [set_task_other kernel _ here]

theorem fate_wake_pipe_waiter (idx : Nat) (slot : Slot) :
    FateKept slot kernel (kernel.wakePipeWaiter idx) := by
  unfold Kernel.wakePipeWaiter
  split
  · split
    · exact FateKept.trans (fate_of_same rfl) (fate_wake_slot _ slot)
    · exact fate_of_same rfl
  · exact fate_of_same rfl

theorem fate_wake_closed (slot : Slot) :
    FateKept slot kernel kernel.wakeClosedPipeReaders := by
  unfold Kernel.wakeClosedPipeReaders
  induction List.finRange maxPipes generalizing kernel with
  | nil => exact fate_of_same rfl
  | cons index rest ih =>
      rw [List.foldl_cons]
      refine FateKept.trans ?_ ih
      unfold Kernel.wakeClosedPipeReader
      split
      · exact fate_of_same rfl
      · exact fate_wake_pipe_waiter index.val slot

theorem fate_wake_children (exitingPid parentPid : Nat) (slot : Slot) :
    FateKept slot kernel (kernel.wakeChildWaiters exitingPid parentPid) :=
  ⟨zombie_of_stirred (wake_child_waiters_stirred kernel exitingPid parentPid) slot,
    (wake_child_waiters_doom kernel exitingPid parentPid slot ⟨0, by decide⟩).1⟩

theorem fate_signal_parent (parentPid : Nat) (slot : Slot) :
    FateKept slot kernel (kernel.signalParent parentPid sigchld) := by
  unfold Kernel.signalParent
  split
  · rename_i parent found
    cases present : kernel.tasks parent with
    | none => exact fate_of_same rfl
    | some task =>
        refine @fate_set_task kernel parent task (task.raiseSignal sigchld) present rfl ?_ slot
        unfold isDoomed
        rw [lethal_raise task (by decide)]
        rfl
  · exact fate_of_same rfl

/-- The sections of `exit_current` after the first. -/
theorem fate_exit_kernel (code : BitVec 32) (task : Task) :
    FateKept slot (kernel.exitMark code) (exitKernel kernel code task) :=
  (fate_wake_children _ _ slot).trans ((fate_signal_parent _ slot).trans (fate_wake_closed slot))

theorem fate_schedule (machine : Machine) (slot : Slot) :
    FateKept slot machine.kernel machine.schedule.1.kernel := by
  have shape := schedule_case machine
  generalize machine.schedule = result at shape ⊢
  cases shape with
  | stays => exact fate_of_same rfl
  | halts => exact fate_of_same rfl
  | @switched next prevTask nextTask picked different incoming outgoing =>
      rw [resume_kernel]
      exact FateKept.trans (@fate_set_task machine.kernel machine.kernel.current prevTask
        { prevTask with fsBase := machine.fsBase } outgoing rfl rfl slot) (fate_of_same rfl)

theorem exit_current_kernel {machine : Machine} {task : Task} (code : BitVec 32)
    (present : machine.kernel.currentTask = some task) (slot : Slot) :
    FateKept slot (machine.kernel.exitMark code) (exitCurrent machine code).kernel := by
  have sections := @fate_exit_kernel machine.kernel slot code task
  unfold exitCurrent
  rw [present]
  dsimp only
  generalize exitKernel machine.kernel code task = ended at sections ⊢
  exact sections.trans (fate_schedule (machine.withKernel ended) slot)

theorem exit_current_zombie {machine : Machine} {task : Task} (code : BitVec 32)
    (present : machine.kernel.currentTask = some task) :
    isZombie (exitCurrent machine code).kernel machine.kernel.current = true := by
  rw [(exit_current_kernel code present machine.kernel.current).1]
  unfold Kernel.exitMark isZombie
  rw [present]
  dsimp only
  rw [set_task_same]
  rfl

theorem exit_current_other {machine : Machine} {task : Task} (code : BitVec 32)
    (present : machine.kernel.currentTask = some task)
    (different : slot ≠ machine.kernel.current) :
    FateKept slot machine.kernel (exitCurrent machine code).kernel := by
  refine FateKept.trans (fate_of_same ?_) (exit_current_kernel code present slot)
  unfold Kernel.exitMark
  rw [present]
  exact set_task_other _ _ different

theorem pick_next_other (dead : isZombie kernel kernel.current = true)
    (notIdle : kernel.current ≠ idleSlot) : kernel.pickNext ≠ kernel.current := by
  intro same
  unfold Kernel.pickNext at same
  cases chosen : ((List.range (maxTasks - 1)).map (Kernel.scanSlot kernel.current)).find?
      kernel.isReady with
  | none =>
      rw [chosen] at same
      exact notIdle same.symm
  | some next =>
      rw [chosen, Option.getD_some] at same
      have ready := List.find?_some chosen
      rw [same] at ready
      obtain ⟨task, present, zombie⟩ := Option.any_eq_true .. |>.mp dead
      simp [Kernel.isReady, present, beq_iff_eq.mp zombie] at ready

theorem schedule_away (machine : Machine)
    (dead : isZombie machine.kernel machine.kernel.current = true)
    (notIdle : machine.kernel.current ≠ idleSlot) :
    (machine.schedule.1.halted ||
      machine.schedule.1.kernel.current != machine.kernel.current) = true := by
  have picks := pick_next_other dead notIdle
  unfold Machine.schedule
  dsimp only
  rw [if_neg picks]
  split
  · rw [resume_kernel, Bool.or_eq_true, bne_iff_ne]
    exact .inr picks
  · rfl

theorem exit_kernel_current (code : BitVec 32) (task : Task) :
    (exitKernel kernel code task).current = kernel.current := by
  unfold exitKernel
  rw [(wake_closed_pipe_readers_stirred _).current, (signal_parent_stirred _ _ _).current,
    (wake_child_waiters_stirred _ _ _).current]
  unfold Kernel.exitMark
  split <;> rfl

/-- The caller's `schedule` does not come back. -/
theorem exit_current_away {machine : Machine} {task : Task} (code : BitVec 32)
    (present : machine.kernel.currentTask = some task)
    (notIdle : machine.kernel.current ≠ idleSlot) :
    ((exitCurrent machine code).halted ||
      (exitCurrent machine code).kernel.current != machine.kernel.current) = true := by
  have ended := @exit_kernel_current machine.kernel code task
  have dead : isZombie (exitKernel machine.kernel code task) machine.kernel.current = true := by
    rw [(@fate_exit_kernel machine.kernel machine.kernel.current code task).1]
    unfold Kernel.exitMark isZombie
    rw [present]
    dsimp only
    rw [set_task_same]
    rfl
  unfold exitCurrent
  rw [present]
  dsimp only
  generalize exitKernel machine.kernel code task = kernel at ended dead ⊢
  rw [← ended] at dead notIdle ⊢
  exact schedule_away (machine.withKernel kernel) dead notIdle

end

section

variable {machine : Machine} {pid sig : Nat} {slot : Slot}

theorem fatal_small (fatal : isFatal sig = true) : 0 < sig ∧ sig ≤ 31 := by
  have every : ∀ other ∈ [sigkill, sigterm, sigabrt, sigquit, sighup], 0 < other ∧ other ≤ 31 := by
    decide
  exact every sig (List.contains_iff_mem.mp fatal)

/-- The two lists differ in `SIGHUP` and `SIGINT`. -/
theorem fatal_lethal (fatal : isFatal sig = true) :
    lethalSignals.contains sig = true ↔ sig ≠ sighup := by
  have every : ∀ other ∈ [sigkill, sigterm, sigabrt, sigquit, sighup],
      (lethalSignals.contains other = true ↔ other ≠ sighup) := by
    decide
  exact every sig (List.contains_iff_mem.mp fatal)

theorem ends_caller_iff : endsCaller machine.kernel pid sig = true ↔
    isFatal sig = true ∧ (pid = machine.kernel.currentPid ∨ pid = 0) := by
  unfold endsCaller
  simp only [Bool.and_eq_true, Bool.or_eq_true, decide_eq_true_eq, beq_iff_eq]
  constructor
  · exact fun ends => ⟨ends.1.2, ends.2⟩
  · exact fun ends => ⟨⟨(fatal_small ends.1).1, ends.1⟩, ends.2⟩

theorem sys_kill_rejects_iff (machine : Machine) (pid sig : Nat) :
    sysKill machine pid sig = (machine, some (-22)) ↔ 31 < sig % 256 := by
  unfold sysKill
  dsimp only
  by_cases large : 31 < sig % 256
  · rw [if_pos large]
    exact iff_of_true rfl large
  · rw [if_neg large]
    refine iff_of_false (fun same => ?_) large
    have result := congrArg Prod.snd same
    split_ifs at result
    all_goals cases result

theorem sys_kill_raises (small : sig ≤ 31) (stays : endsCaller machine.kernel pid sig = false) :
    (sysKill machine pid sig).1.kernel = (machine.kernel.raiseSignalToPid pid sig).1 := by
  have low : sig % 256 = sig := Nat.mod_eq_of_lt (by omega)
  unfold sysKill
  dsimp only
  rw [low, if_neg (by omega), stays]
  rfl

theorem sys_kill_leaves {task : Task} (small : sig ≤ 31)
    (ends : endsCaller machine.kernel pid sig = true) (present : machine.kernel.currentTask = some task)
    (notIdle : machine.kernel.current ≠ idleSlot) :
    (sysKill machine pid sig).1 = exitCurrent machine (BitVec.ofNat 32 sig) := by
  have low : sig % 256 = sig := Nat.mod_eq_of_lt (by omega)
  have away := exit_current_away (BitVec.ofNat 32 sig) present notIdle
  unfold sysKill
  dsimp only
  rw [low, if_neg (by omega), ends]
  simp only [if_true, away, Bool.and_self]

theorem sys_kill_ends_caller {task : Task} (small : sig ≤ 31)
    (ends : endsCaller machine.kernel pid sig = true)
    (present : machine.kernel.currentTask = some task) :
    isZombie (sysKill machine pid sig).1.kernel machine.kernel.current = true := by
  have low : sig % 256 = sig := Nat.mod_eq_of_lt (by omega)
  have dead := exit_current_zombie (BitVec.ofNat 32 sig) present
  unfold sysKill
  dsimp only
  rw [low, if_neg (by omega), ends]
  simp only [if_true, Bool.true_and]
  split
  · exact dead
  · exact (raise_zombie pid sig).trans dead

theorem dies_remotely_iff (small : sig ≤ 31) (target : targetOf machine.kernel pid = some slot)
    (notIdle : machine.kernel.current ≠ idleSlot) (other : machine.kernel.currentPid ≠ pid) :
    DiesRemotely machine pid sig slot ↔
      slot ≠ idleSlot ∧ (lethalSignals.contains sig = true ∧ ¬(isFatal sig = true ∧ pid = 0) ∨
        (machine.kernel.tasks slot).any isDoomed = true) := by
  unfold DiesRemotely
  have ends := @ends_caller_iff machine pid sig
  rw [or_iff_right other.symm] at ends
  cases stays : endsCaller machine.kernel pid sig with
  | false =>
      rw [sys_kill_raises small stays, raised_delivered small target, ← ends, stays]
      simp
  | true =>
      obtain ⟨fatal, rfl⟩ := ends.mp stays
      obtain ⟨task, present, same, _⟩ := target_live target
      unfold Kernel.currentPid at other
      cases running : machine.kernel.currentTask with
      | none =>
          rw [running] at other
          exact absurd rfl other
      | some sender =>
          have different : slot ≠ machine.kernel.current := by
            rintro rfl
            have own : machine.kernel.currentTask = some task := present
            rw [own] at other
            exact other same
          have kept := exit_current_other (BitVec.ofNat 32 sig) running different
          rw [sys_kill_leaves small stays running notIdle, deliver_all_zombie, kept.1, kept.2,
            target_not_zombie target]
          simp [fatal]

theorem dies_alone_iff (small : sig ≤ 31) (target : targetOf machine.kernel pid = some slot) :
    DiesAlone machine pid sig slot ↔
      isFatal sig = true ∨ slot ≠ idleSlot ∧ (lethalSignals.contains sig = true ∨
        (machine.kernel.tasks slot).any isDoomed = true) := by
  obtain ⟨task, present, same, _⟩ := target_live target
  have ends : endsCaller (runningAs machine slot).kernel pid sig = isFatal sig := by
    have own : (runningAs machine slot).kernel.currentPid = pid := by
      change ((machine.kernel.tasks slot).map Task.pid).getD 0 = pid
      rw [present]
      exact same
    rw [Bool.eq_iff_iff, ends_caller_iff, own]
    simp
  unfold DiesAlone
  dsimp only
  cases fatal : isFatal sig with
  | true =>
      rw [fatal] at ends
      exact iff_of_true (.inl (sys_kill_ends_caller small ends present)) (.inl rfl)
  | false =>
      rw [fatal] at ends
      rw [sys_kill_raises small ends, raise_zombie]
      change isZombie machine.kernel slot = true ∨ _ ↔ _
      rw [target_not_zombie target]
      simp only [Bool.false_eq_true, false_or]
      exact @raised_delivered (runningAs machine slot).kernel slot pid sig small target

/-- For any state, live target and signal number: the two agree exactly if the signal
reaches the target. -/
theorem kills_agree_iff (machine : Machine) (pid sig : Nat) (slot : Slot)
    (target : targetOf machine.kernel pid = some slot)
    (notIdle : machine.kernel.current ≠ idleSlot) (other : machine.kernel.currentPid ≠ pid) :
    KillsAgree machine pid sig slot ↔ Reaches machine pid sig slot := by
  constructor
  · intro agree
    refine ⟨fun large => (sys_kill_rejects_iff machine pid sig).mp (agree.rejects large).1, ?_⟩
    intro fatal
    have small := (fatal_small fatal).2
    have dies := (agree.agrees small).mpr ((dies_alone_iff small target).mpr (.inl fatal))
    obtain ⟨isTask, lethal | doomed⟩ := (dies_remotely_iff small target notIdle other).mp dies
    · refine ⟨isTask, .inl ⟨(fatal_lethal fatal).mp lethal.1, fun zero => lethal.2 ⟨fatal, zero⟩⟩⟩
    · exact ⟨isTask, .inr doomed⟩
  · intro reaches
    constructor
    · intro large
      exact ⟨(sys_kill_rejects_iff _ _ _).mpr (reaches.narrow large),
        (sys_kill_rejects_iff _ _ _).mpr (reaches.narrow large)⟩
    · intro small
      rw [dies_remotely_iff small target notIdle other, dies_alone_iff small target]
      cases fatal : isFatal sig with
      | false => simp
      | true =>
          obtain ⟨isTask, reached⟩ := reaches.delivered fatal
          refine iff_of_true ⟨isTask, reached.imp_left fun plain => ?_⟩ (.inl rfl)
          exact ⟨(fatal_lethal fatal).mpr plain.1, fun both => plain.2 both.2⟩

end

def childSlot : Slot := ⟨2, by decide⟩

/-- The task with pid 1 runs, and its child with pid 2 is ready. -/
def twoTasks : Machine :=
  bootMachine.withKernel
    { (boot.setTask firstSlot (Task.newUser 1 0x200000 0x300000 0)).setTask childSlot
        (Task.newUser 2 0x210000 0x310000 1) with
      current := firstSlot }

/-- `SIGKILL` reaches the child. -/
theorem sigkill_agrees : KillsAgree twoTasks 2 sigkill childSlot := by
  refine (kills_agree_iff twoTasks 2 sigkill childSlot (by decide +kernel) (by decide)
    (by decide +kernel)).mpr ⟨by decide, fun _ => ⟨by decide, .inl ⟨by decide, by decide⟩⟩⟩

/-- `SIGHUP` ends the child only if it comes from the child itself, and 265 is taken for
`SIGKILL`. -/
theorem sighup_and_large_numbers :
    (isZombie (sysKill twoTasks 2 sighup).1.kernel.deliverAllSignals childSlot = false ∧
        isZombie (sysKill (runningAs twoTasks childSlot) 2 sighup).1.kernel childSlot = true ∧
        ¬KillsAgree twoTasks 2 sighup childSlot) ∧
      (sysKill twoTasks 2 265).2 = some 0 ∧
        isZombie (sysKill twoTasks 2 265).1.kernel.deliverAllSignals childSlot = true ∧
        ¬KillsAgree twoTasks 2 265 childSlot := by
  have survives : isZombie (sysKill twoTasks 2 sighup).1.kernel.deliverAllSignals childSlot =
      false := by
    decide +kernel
  have ends : isZombie (sysKill (runningAs twoTasks childSlot) 2 sighup).1.kernel childSlot =
      true := by
    decide +kernel
  have accepted : (sysKill twoTasks 2 265).2 = some 0 := by decide +kernel
  refine ⟨⟨survives, ends, fun agree => ?_⟩, accepted, by decide +kernel, fun agree => ?_⟩
  · have dies := (agree.agrees (by decide)).mpr (.inl ends)
    unfold DiesRemotely at dies
    rw [survives] at dies
    cases dies
  · have rejected := congrArg Prod.snd (agree.rejects (by decide)).1
    rw [accepted] at rejected
    cases rejected

end Ferrugem.KillSyscall
