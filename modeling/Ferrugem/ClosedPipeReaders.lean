import Ferrugem.BlockedReaders
import Ferrugem.KernelOperations
import Ferrugem.PipeEnds

/-!
# Readers of a pipe without writers

A reader blocked on an empty pipe must be woken when the last write end goes
away. `sys_close` and `exit_current` do so; `dup2` onto an open descriptor and
the termination of a task by a signal release write ends as well, but wake no
one. After every completed operation the registered reader is safe as long as
these two silent paths leave it a writer.
-/

namespace Ferrugem.ClosedPipeReaders

open Ferrugem.PipePoolModel Ferrugem.ProcessModel Ferrugem.SchedulerModel
open Ferrugem.DescriptorSyscalls Ferrugem.KernelMachine Ferrugem.KernelEvolution
open Ferrugem.TaskLifecycle Ferrugem.BlockedReaders Ferrugem.KernelOperations Ferrugem.PipeEnds

set_option autoImplicit false

/-- The registered reader of a pipe without writers is not left blocked on it. -/
def NoReaderStranded (machine : Machine) : Prop :=
  ∀ (index : PipeIndex) slot, (machine.kernel.pool index).writeCount = 0 →
    machine.kernel.pipeWaiters index = some slot →
    waitsFor machine slot (.pipe index.val) = false

/-- The write ends a task loses if signals are delivered now. -/
def doomedWrites (task : Option Task) (index : PipeIndex) : Nat :=
  match task with
  | some task => if isDoomed task then tableEnds .writing task.fdTable index else 0
  | none => 0

theorem deliver_slot_writes (kernel : Kernel) (slot : Slot) (index : PipeIndex) :
    countOf (kernel.pool index) .writing ≤
      countOf ((kernel.deliverSlot slot).pool index) .writing +
        doomedWrites (kernel.tasks slot) index := by
  rcases deliver_slot_cases kernel slot with ⟨task, pending, present, doomed, killed⟩ | ⟨-, stirred⟩
  · rw [killed]
    change _ ≤ countOf (FdTable.closeAll kernel.pool task.fdTable index) .writing + _
    rw [close_all_count, present]
    simp only [doomedWrites, doomed, if_true]
    omega
  · have same : countOf ((kernel.deliverSlot slot).pool index) .writing =
        countOf (kernel.pool index) .writing := (stirred.counts index).2.2
    omega

theorem wake_child_waiters_doom (kernel : Kernel) (exitingPid parentPid : Nat) (slot : Slot)
    (index : PipeIndex) :
    ((kernel.wakeChildWaiters exitingPid parentPid).tasks slot).any isDoomed =
        (kernel.tasks slot).any isDoomed ∧
      doomedWrites ((kernel.wakeChildWaiters exitingPid parentPid).tasks slot) index =
        doomedWrites (kernel.tasks slot) index := by
  simp only [Kernel.wakeChildWaiters]
  cases kernel.tasks slot with
  | none => exact ⟨rfl, rfl⟩
  | some task =>
      simp only [Option.map_some]
      split_ifs with woken
      · have waiting : task.state = .blocked := by
          simp only [Kernel.wakesOnExit, Bool.and_eq_true, beq_iff_eq] at woken
          exact woken.1
        have doom : isDoomed { task with waitingForPid := 0, state := .ready } =
            isDoomed task := by
          simp only [isDoomed, waiting]
          rfl
        constructor
        · exact doom
        · simp only [doomedWrites, doom]
      · exact ⟨rfl, rfl⟩

theorem deliver_slot_other {kernel : Kernel} {slot other : Slot} (different : other ≠ slot)
    (index : PipeIndex) :
    ((kernel.deliverSlot slot).tasks other).any isDoomed = (kernel.tasks other).any isDoomed ∧
      doomedWrites ((kernel.deliverSlot slot).tasks other) index =
        doomedWrites (kernel.tasks other) index := by
  unfold Kernel.deliverSlot
  split
  · exact ⟨rfl, rfl⟩
  · dsimp only
    split_ifs
    · exact ⟨rfl, rfl⟩
    · exact ⟨rfl, rfl⟩
    · have woken := wake_child_waiters_doom
      rw [(woken _ _ _ other index).1, (woken _ _ _ other index).2, set_task_other _ _ different]
      exact ⟨rfl, rfl⟩
    · rw [set_task_other _ _ different]
      exact ⟨rfl, rfl⟩
    · rw [set_task_other _ _ different]
      exact ⟨rfl, rfl⟩

theorem deliver_list_writes (slots : List Slot) (distinct : slots.Nodup) (kernel : Kernel)
    (index : PipeIndex) :
    countOf (kernel.pool index) .writing ≤
      countOf ((slots.foldl Kernel.deliverSlot kernel).pool index) .writing +
        (slots.map fun slot => doomedWrites (kernel.tasks slot) index).sum := by
  induction slots generalizing kernel with
  | nil => simp
  | cons slot rest ih =>
      rw [List.nodup_cons] at distinct
      have first := deliver_slot_writes kernel slot index
      have later := ih distinct.2 (kernel.deliverSlot slot)
      have untouched : (rest.map fun other =>
          doomedWrites ((kernel.deliverSlot slot).tasks other) index) =
            rest.map fun other => doomedWrites (kernel.tasks other) index := by
        apply List.map_congr_left
        intro other member
        have different : other ≠ slot := by
          rintro rfl
          exact distinct.1 member
        exact (deliver_slot_other different index).2
      rw [untouched] at later
      simp only [List.foldl_cons, List.map_cons, List.sum_cons]
      omega

theorem deliver_list_kills {slots : List Slot} {kernel : Kernel} {slot : Slot}
    (member : slot ∈ slots) (doomed : (kernel.tasks slot).any isDoomed = true) :
    isBlocked (slots.foldl Kernel.deliverSlot kernel) slot = false := by
  induction slots generalizing kernel with
  | nil => cases member
  | cons head rest ih =>
      simp only [List.foldl_cons]
      by_cases here : slot = head
      · subst here
        have dead : isBlocked (kernel.deliverSlot slot) slot = false := by
          rcases deliver_slot_cases kernel slot with
            ⟨task, pending, present, -, killed⟩ | ⟨spared, -⟩
          · rw [killed]
            have waiters := (wake_child_waiters_stirred ({ kernel with
              pool := FdTable.closeAll kernel.pool task.fdTable }.setTask slot
              { task with
                pendingSignals := pending
                fdTable := fun _ => .empty
                exitCode := 1
                state := .zombie }) task.pid task.ppid).waiters
            by_contra waits
            have before := waiters.blocked slot (by simpa using waits)
            simp [isBlocked] at before
          · obtain ⟨task, present, lethal⟩ := Option.any_eq_true .. |>.mp doomed
            simp [present, lethal] at spared
        by_contra waits
        have evolves := KernelEvolves.foldl _ deliver_slot_evolves rest (kernel.deliverSlot slot)
        have before := evolves.waiters.blocked slot (by simpa using waits)
        rw [dead] at before
        cases before
      · apply ih
        · exact (List.mem_cons.mp member).resolve_left here
        · rw [(deliver_slot_other here ⟨0, by decide⟩).1]
          exact doomed

theorem wake_pipe_waiter_clears (kernel : Kernel) (index : PipeIndex) :
    (kernel.wakePipeWaiter index.val).pipeWaiters index = none := by
  unfold Kernel.wakePipeWaiter
  rw [dif_pos index.isLt]
  split
  · rw [wake_slot_pipe_waiters]
    simp
  · rename_i empty
    exact empty

theorem wake_if_write_closed_clears {kernel : Kernel} {index : PipeIndex}
    (closed : (kernel.pool index).writeCount = 0) :
    (wakeIfWriteClosed kernel index.val).pipeWaiters index = none := by
  have shut : pipeWriteOpen kernel.pool index.val = false := by
    simp [pipeWriteOpen, closed]
  simp only [wakeIfWriteClosed, shut, Bool.false_eq_true, if_false]
  exact wake_pipe_waiter_clears kernel index

/-- The wake-up after a dropped write end reaches exactly the pipe that may
have lost its last writer. -/
theorem close_write_clears {kernel : Kernel} {idx : Nat} {index : PipeIndex}
    (after : ((wakeIfWriteClosed { kernel with
      pool := closePipeWrite kernel.pool idx } idx).pool index).writeCount = 0)
    (before : (kernel.pool index).writeCount ≠ 0) :
    (wakeIfWriteClosed { kernel with pool := closePipeWrite kernel.pool idx }
      idx).pipeWaiters index = none := by
  have counts := (wake_if_write_closed_stirred
    { kernel with pool := closePipeWrite kernel.pool idx } idx).counts index
  rw [counts.2.2] at after
  have closed := close_end_count .writing .writing kernel.pool idx index
  simp only [closeEnd, countOf, true_and] at closed
  by_cases same : index.val = idx
  · subst same
    exact wake_if_write_closed_clears after
  · rw [if_neg same] at closed
    change (closePipeWrite kernel.pool idx index).writeCount = 0 at after
    omega

theorem sys_close_clears {kernel : Kernel} {fd : Nat} {index : PipeIndex}
    (after : ((sysClose kernel fd).1.pool index).writeCount = 0)
    (before : (kernel.pool index).writeCount ≠ 0) :
    (sysClose kernel fd).1.pipeWaiters index = none := by
  have closes := current_fd_close_pool kernel fd
  rcases result : currentFdClose kernel fd with ⟨closed, _ | entry⟩
  · simp only [sysClose, result] at after
    exact absurd after before
  · rw [result] at closes
    dsimp only at closes
    have reads (idx : Nat) : (closePipeRead closed.pool idx index).writeCount =
        (closed.pool index).writeCount := by
      have counts := close_end_count .reading .writing closed.pool idx index
      simpa [closeEnd, countOf] using counts
    rw [← closes] at before
    simp only [sysClose, result] at after ⊢
    cases entry with
    | pipeRead idx =>
        dsimp only at after
        rw [reads] at after
        exact absurd after before
    | pipeWrite idx => exact close_write_clears after before
    | socketPair readIdx writeIdx =>
        dsimp only at after
        rw [← reads readIdx] at before
        exact @close_write_clears { closed with pool := closePipeRead closed.pool readIdx }
          writeIdx index after before
    | _ => exact absurd after before

theorem sys_pipe_other {kernel : Kernel} {fdsPtr : Nat} {index : PipeIndex}
    (live : (kernel.pool index).inUse = true) :
    (sysPipe kernel fdsPtr).1.pool index = kernel.pool index := by
  unfold sysPipe
  split_ifs
  · rfl
  · split
    · rfl
    · rename_i idx pool allocated
      have different := alloc_pipe_live allocated live
      have elsewhere : index.val ≠ idx.val := fun same => different (Fin.ext same)
      dsimp only
      split
      · simp only [current_fd_alloc_pool]
        exact alloc_pipe_other allocated different
      · simp only [closePipe, current_fd_alloc_pool]
        have second := close_end_other .writing (closePipeRead pool idx.val) elsewhere
        have first := close_end_other .reading pool elsewhere
        simp only [closeEnd] at first second
        rw [second, first]
        exact alloc_pipe_other allocated different

theorem sys_socketpair_other {kernel : Kernel} {svPtr : Nat} {index : PipeIndex}
    (live : (kernel.pool index).inUse = true) :
    (sysSocketpair kernel svPtr).1.pool index = kernel.pool index := by
  unfold sysSocketpair
  split_ifs
  · rfl
  · split
    · rfl
    · rename_i a poolA allocatedA
      have differentA := alloc_pipe_live allocatedA live
      have elsewhereA : index.val ≠ a.val := fun same => differentA (Fin.ext same)
      have keptA := alloc_pipe_other allocatedA differentA
      split
      · simp only [closePipe]
        have second := close_end_other .writing (closePipeRead poolA a.val) elsewhereA
        have first := close_end_other .reading poolA elsewhereA
        simp only [closeEnd] at first second
        rw [second, first, keptA]
      · rename_i b poolB allocatedB
        rw [← keptA] at live
        have differentB := alloc_pipe_live allocatedB live
        have elsewhereB : index.val ≠ b.val := fun same => differentB (Fin.ext same)
        have keptB := alloc_pipe_other allocatedB differentB
        dsimp only
        split
        · simp only [current_fd_alloc_pool]
          rw [keptB, keptA]
        · simp only [current_fd_alloc_pool]
          have first := close_end_other .reading poolB elsewhereA
          have second := close_end_other .writing (closePipeRead poolB a.val) elsewhereB
          have third := close_end_other .reading
            (closePipeWrite (closePipeRead poolB a.val) b.val) elsewhereB
          simp only [closeEnd] at first second third
          rw [third, second, first, keptB, keptA]

/-- The write ends of a pipe in the descriptor that `dup2` replaces. -/
def replacedWrites (kernel : Kernel) (oldFd newFd : Nat) (index : PipeIndex) : Nat :=
  match kernel.currentTask with
  | some task =>
      if oldFd = newFd ∨ (FdTable.get task.fdTable oldFd).isNone then 0
      else if bound : newFd < maxFds then endsOf .writing (task.fdTable ⟨newFd, bound⟩) index
      else 0
  | none => 0

theorem sys_dup2_writes (kernel : Kernel) (oldFd newFd : Nat) (index : PipeIndex) :
    ((sysDup2 kernel oldFd newFd).1.pool index).writeCount =
      (kernel.pool index).writeCount - replacedWrites kernel oldFd newFd index := by
  unfold sysDup2 currentFdDup2 replacedWrites
  by_cases same : oldFd = newFd
  · simp only [same, true_or, if_true]
    split <;> simp
  · rw [if_neg same]
    split
    · rename_i absent
      simp [absent]
    · rename_i task present
      simp only [present]
      cases found : FdTable.get task.fdTable oldFd with
      | none => simp
      | some entry =>
          by_cases bound : newFd < maxFds
          · have released := release_entry_count kernel.pool (task.fdTable ⟨newFd, bound⟩)
              .writing index
            simp only [countOf] at released
            simpa [FdTable.allocAt, bound, same, Kernel.setTask] using released
          · simp [FdTable.allocAt, bound]

/-- The write ends that a silent path releases in this step. -/
def silentlyDropped (machine : Machine) (action : Action) (index : PipeIndex) : Nat :=
  match action with
  | .dup2 oldFd newFd => replacedWrites machine.kernel oldFd newFd index
  | .tick =>
      if machine.irqsOn ∧ (machine.kernel.tickCount + 1) % 2 ^ 64 % 5 = 0 then
        (taskSlots.map fun slot => doomedWrites (machine.kernel.tasks slot) index).sum
      else 0
  | _ => 0

/-- The reader does not survive the step: it is terminated by the delivery. -/
def isKilledReader (machine : Machine) (action : Action) (slot : Slot) : Bool :=
  action == .tick && slot != idleSlot && (machine.kernel.tasks slot).any isDoomed

/-- A `dup2` or a signal delivery that releases write ends of a pipe on which
its registered reader is blocked releases fewer of them than are counted,
unless the reader is terminated too. -/
def SilentDropsSpareReaders (machine : Machine) : Operation → Prop
  | .act action _ =>
      machine.halted = false → machine.returning = false →
        ∀ index, silentlyDropped machine action index ≠ 0 →
          ∀ slot ∈ machine.kernel.pipeWaiters index,
            waitsFor machine slot (.pipe index.val) = true →
            isKilledReader machine action slot = false →
            silentlyDropped machine action index < (machine.kernel.pool index).writeCount
  | _ => True

instance decidableSilentDropsSpareReaders (machine : Machine) (operation : Operation) :
    Decidable (SilentDropsSpareReaders machine operation) :=
  match operation with
  | .act action _ =>
      inferInstanceAs (Decidable (_ → _ → ∀ index, silentlyDropped machine action index ≠ 0 →
        ∀ slot ∈ machine.kernel.pipeWaiters index, _ → _ → _))
  | .exitCurrent _ => isTrue trivial
  | .spawn _ => isTrue trivial

theorem no_reader_stranded_boot : NoReaderStranded bootMachine := by
  intro index slot closed registered
  simp [bootMachine, boot] at registered

/-- Steps that start no wait keep the property if each pipe that loses its
last writer has no blocked registered reader afterwards. -/
theorem stranded_kept {before after : Machine} (safe : NoReaderStranded before)
    (waiters : WaitersKept before.kernel after.kernel)
    (blockedOn : ∀ slot, isBlocked after.kernel slot = true →
      after.blockedOn slot = before.blockedOn slot)
    (drops : ∀ index slot, (after.kernel.pool index).writeCount = 0 →
      (before.kernel.pool index).writeCount ≠ 0 →
      after.kernel.pipeWaiters index = some slot →
      waitsFor after slot (.pipe index.val) = false) : NoReaderStranded after := by
  intro index slot closed registered
  by_cases lost : (before.kernel.pool index).writeCount = 0
  · by_contra waits
    obtain ⟨blocked, reason⟩ := waits_for_iff.mp (by simpa using waits)
    rw [blockedOn slot blocked] at reason
    have earlier := safe index slot lost (waiters.pipeOld index slot registered)
    rw [waits_for_iff.mpr ⟨waiters.blocked slot blocked, reason⟩] at earlier
    cases earlier
  · exact drops index slot closed lost registered

theorem stranded_kept_counts {before after : Machine} (safe : NoReaderStranded before)
    (waiters : WaitersKept before.kernel after.kernel)
    (blockedOn : ∀ slot, isBlocked after.kernel slot = true →
      after.blockedOn slot = before.blockedOn slot)
    (writers : ∀ index, (before.kernel.pool index).writeCount ≠ 0 →
      (after.kernel.pool index).writeCount ≠ 0) : NoReaderStranded after :=
  stranded_kept safe waiters blockedOn fun index _ closed writable _ =>
    absurd closed (writers index writable)

theorem stranded_schedule {machine : Machine} (safe : NoReaderStranded machine) :
    NoReaderStranded machine.schedule.1 := by
  obtain ⟨waiters, blockedOn⟩ := schedule_waiters machine
  refine stranded_kept_counts safe waiters ?_ ?_
  · intro slot _
    rw [blockedOn]
  · intro index writable
    rwa [schedule_pool]

/-- A reader that is still blocked after a delivery was blocked before it and
is not among the terminated tasks, so a writer of its pipe is left. -/
theorem stranded_tick {machine : Machine} (safe : NoReaderStranded machine)
    (enabled : machine.irqsOn = true)
    (spares : ∀ index, silentlyDropped machine .tick index ≠ 0 →
      ∀ slot ∈ machine.kernel.pipeWaiters index,
        waitsFor machine slot (.pipe index.val) = true →
        isKilledReader machine .tick slot = false →
        silentlyDropped machine .tick index < (machine.kernel.pool index).writeCount) :
    NoReaderStranded machine.tickCounted := by
  have waiters := (tick_counted_evolves machine).waiters
  refine stranded_kept safe waiters (fun _ _ => rfl) ?_
  intro index slot closed writable registered
  by_cases due : (machine.kernel.tickCount + 1) % 2 ^ 64 % 5 = 0
  · have delivered : machine.tickCounted.kernel = taskSlots.foldl Kernel.deliverSlot
        { machine.kernel with tickCount := (machine.kernel.tickCount + 1) % 2 ^ 64 } := by
      simp only [Machine.tickCounted, due, if_true]
      rfl
    have dropped : silentlyDropped machine .tick index =
        (taskSlots.map fun slot => doomedWrites (machine.kernel.tasks slot) index).sum := by
      simp only [silentlyDropped]
      rw [if_pos ⟨enabled, due⟩]
    have released := deliver_list_writes taskSlots (by decide)
      { machine.kernel with tickCount := (machine.kernel.tickCount + 1) % 2 ^ 64 } index
    rw [← delivered] at released
    simp only [countOf] at released
    rw [← dropped, closed] at released
    by_contra still
    obtain ⟨blocked, reason⟩ := waits_for_iff.mp (by simpa using still)
    have earlier : waitsFor machine slot (.pipe index.val) = true :=
      waits_for_iff.mpr ⟨waiters.blocked slot blocked, reason⟩
    have survives : isKilledReader machine .tick slot = false := by
      by_contra killed
      simp only [isKilledReader, Bool.not_eq_false, Bool.and_eq_true, bne_iff_ne] at killed
      have gone := deliver_list_kills (mem_task_slots killed.1.2)
        (show (({ machine.kernel with
          tickCount := (machine.kernel.tickCount + 1) % 2 ^ 64 } : Kernel).tasks slot).any
            isDoomed = true from killed.2)
      rw [← delivered, blocked] at gone
      cases gone
    have left := spares index (by omega) slot (waiters.pipeOld index slot registered) earlier
      survives
    omega
  · have same : machine.tickCounted.kernel.pool = machine.kernel.pool := by
      simp only [Machine.tickCounted, due, if_false]
      rfl
    rw [same] at closed
    exact absurd closed writable

theorem stranded_call {machine : Machine} {action : Action} {after : Kernel}
    (safe : NoReaderStranded machine)
    (call : descriptorKernel machine.kernel action = some after)
    (spares : ∀ index, silentlyDropped machine action index ≠ 0 →
      ∀ slot ∈ machine.kernel.pipeWaiters index,
        waitsFor machine slot (.pipe index.val) = true →
        isKilledReader machine action slot = false →
        silentlyDropped machine action index < (machine.kernel.pool index).writeCount) :
    NoReaderStranded (machine.withKernel after) := by
  have waiters := (descriptor_kernel_spares call).waiters
  have live (index : PipeIndex) (writable : (machine.kernel.pool index).writeCount ≠ 0) :
      (machine.kernel.pool index).inUse = true := @in_use_of_count _ .writing writable
  cases action <;> simp only [descriptorKernel, Option.some.injEq, reduceCtorEq] at call <;>
    subst call
  case pipe fdsPtr =>
    refine stranded_kept_counts safe waiters (fun _ _ => rfl) ?_
    intro index writable
    simp only [Machine.withKernel, sys_pipe_other (live index writable)]
    exact writable
  case socketpair svPtr =>
    refine stranded_kept_counts safe waiters (fun _ _ => rfl) ?_
    intro index writable
    simp only [Machine.withKernel, sys_socketpair_other (live index writable)]
    exact writable
  case dup fd =>
    refine stranded_kept_counts safe waiters (fun _ _ => rfl) ?_
    intro index writable
    simpa only [Machine.withKernel, sys_dup_pool] using writable
  case dup2 oldFd newFd =>
    refine stranded_kept safe waiters (fun _ _ => rfl) ?_
    intro index slot closed writable registered
    have counts := sys_dup2_writes machine.kernel oldFd newFd index
    simp only [Machine.withKernel] at closed
    rw [closed] at counts
    by_contra still
    obtain ⟨blocked, reason⟩ := waits_for_iff.mp (by simpa using still)
    have earlier : waitsFor machine slot (.pipe index.val) = true :=
      waits_for_iff.mpr ⟨waiters.blocked slot blocked, reason⟩
    have left := spares index (by simp only [silentlyDropped]; omega) slot
      (waiters.pipeOld index slot registered) earlier (by simp [isKilledReader])
    simp only [silentlyDropped] at left
    omega
  case fcntl fd cmd =>
    refine stranded_kept_counts safe waiters (fun _ _ => rfl) ?_
    intro index writable
    simpa only [Machine.withKernel, sys_fcntl_pool] using writable
  case close fd =>
    refine stranded_kept safe waiters (fun _ _ => rfl) ?_
    intro index slot closed writable registered
    rw [show (machine.withKernel (sysClose machine.kernel fd).1).kernel.pipeWaiters index = none
      from sys_close_clears closed writable] at registered
    cases registered

/-- A blocking section makes only the current task wait, and on a pipe only if
that pipe has a writer. -/
theorem stranded_blocks {machine : Machine} {base : Kernel} {task : Task} {reason : WaitReason}
    {waitingForPid : Nat} (safe : NoReaderStranded machine)
    (current : base.current = machine.kernel.current) (tasks : base.tasks = machine.kernel.tasks)
    (pool : base.pool = machine.kernel.pool)
    (writable : ∀ index : PipeIndex, reason = .pipe index.val →
      (machine.kernel.pool index).writeCount ≠ 0)
    (records : ∀ (index : PipeIndex) slot, slot ≠ machine.kernel.current →
      base.pipeWaiters index = some slot → machine.kernel.pipeWaiters index = some slot) :
    NoReaderStranded (noteBlocked machine reason (blockedKernel base task waitingForPid)) := by
  intro index slot closed registered
  change (base.pool index).writeCount = 0 at closed
  rw [pool] at closed
  by_cases same : slot = machine.kernel.current
  · subst same
    by_contra waits
    have cause := (waits_for_iff.mp (by simpa using waits)).2
    simp only [noteBlocked, Function.update_self, Option.some.injEq] at cause
    exact writable index cause closed
  · have other : slot ≠ base.current := by rw [current]; exact same
    have earlier := safe index slot closed (records index slot same registered)
    simpa only [waitsFor, isBlocked, noteBlocked, blockedKernel, Machine.withKernel,
      set_task_other base _ other, tasks, Function.update_of_ne same] using earlier

theorem stranded_perform {machine : Machine} {action : Action} (safe : NoReaderStranded machine)
    (whole : isWhole action = true) (running : machine.halted = false)
    (going : machine.returning = false ∨ action = .sysret)
    (spares : SilentDropsSpareReaders machine (.act action whole)) :
    NoReaderStranded (machine.perform action).1 := by
  have shape := perform_case machine action
  generalize machine.perform action = result at shape ⊢
  cases shape with
  | quiet origin evolves =>
      cases origin with
      | stirs stirred =>
          refine stranded_kept_counts safe stirred.waiters (fun _ _ => rfl) ?_
          intro index writable
          simpa only [Machine.withKernel, (stirred.counts index).2.2] using writable
      | calls call =>
          have free : machine.returning = false := by
            rcases going with free | rfl
            · exact free
            · simp [descriptorKernel] at call
          exact stranded_call safe call (spares running free)
      | delivers enabled =>
          exact stranded_tick safe enabled (spares running (going.resolve_right (by simp)))
  | @switches _ before source evolves others =>
      apply stranded_schedule
      rcases source with ⟨rfl, rfl⟩ | ⟨rfl, rfl, enabled⟩
      · exact safe
      · exact stranded_tick safe enabled (spares running (going.resolve_right (by simp)))
  | halts unchanged =>
      refine stranded_kept_counts safe (WaitersKept.refl _) ?_ fun _ writable => writable
      intro slot waits
      obtain ⟨task, present, -⟩ := is_blocked_iff.mp waits
      change machine.kernel.tasks slot = some task at present
      exact unchanged slot (by simp [present])
  | exits present => cases whole
  | @reaps _ _ reapedSlot _ found present =>
      exact stranded_kept_counts safe (reaped_waiters machine.kernel reapedSlot) (fun _ _ => rfl)
        fun _ writable => writable
  | blocksOnChild absent living present =>
      exact stranded_blocks safe rfl rfl rfl (fun _ other => by cases other)
        fun _ _ _ registered => registered
  | blocksOnTty present =>
      exact stranded_blocks safe rfl rfl rfl (fun _ other => by cases other)
        fun _ _ _ registered => registered
  | @blocksOnPipe index task must present =>
      refine stranded_blocks safe rfl rfl rfl ?_ ?_
      · intro other same
        simp only [WaitReason.pipe.injEq] at same
        rw [← Fin.ext same]
        simp only [Kernel.mustBlockOnPipe, pipeWriteOpen, index.isLt, dite_true,
          Bool.and_eq_true, decide_eq_true_eq] at must
        have positive : 0 < (machine.kernel.pool index).writeCount := must.2
        omega
      · intro other slot different registered
        by_cases same : other = index
        · subst same
          simp only [Function.update_self, Option.some.injEq] at registered
          exact absurd registered.symm different
        · simpa only [Function.update_of_ne same] using registered
  | gathers unchosen => exact safe
  | chooses gathered vacant => exact safe
  | installs chosen => cases whole
  | setsFsBase =>
      refine stranded_kept_counts safe (modify_current_waiters fun _ => rfl) (fun _ _ => rfl) ?_
      intro index writable
      rwa [show (machine.withKernel (machine.kernel.setFsBase _)).kernel.pool =
        machine.kernel.pool from modify_current_pool _ _]
  | writesFsBase => exact safe
  | execs inside =>
      simp only [Machine.execve, inside]
      refine stranded_kept_counts safe (modify_current_waiters fun _ => rfl) (fun _ _ => rfl) ?_
      intro index writable
      simpa only [Kernel.execveTask, modify_current_pool] using writable
  | movesStack outside => exact safe
  | enters outside user => exact safe
  | returns inside =>
      refine stranded_kept_counts safe ?_ ?_ ?_
      · rw [sysret_kernel]
        exact WaitersKept.refl _
      · intro slot waits
        simp only [Machine.sysret, inside, Machine.applyExecRedirect]
        split <;> rfl
      · rw [sysret_kernel]
        exact fun _ writable => writable

theorem wake_closed_pipe_readers_clears {indices : List PipeIndex} {kernel : Kernel}
    {index : PipeIndex} (member : index ∈ indices)
    (closed : (kernel.pool index).writeCount = 0) :
    (indices.foldl Kernel.wakeClosedPipeReader kernel).pipeWaiters index = none := by
  induction indices generalizing kernel with
  | nil => cases member
  | cons head rest ih =>
      simp only [List.foldl_cons]
      have first := wake_closed_pipe_reader_stirred kernel head
      by_cases here : index = head
      · subst here
        have cleared : (kernel.wakeClosedPipeReader index).pipeWaiters index = none := by
          have shut : pipeWriteOpen kernel.pool index.val = false := by
            simp [pipeWriteOpen, closed]
          simp only [Kernel.wakeClosedPipeReader, shut, Bool.false_eq_true, if_false]
          exact wake_pipe_waiter_clears kernel index
        have later := (KernelStirred.foldl _ wake_closed_pipe_reader_stirred rest
          (kernel.wakeClosedPipeReader index)).waiters
        cases registered :
            (rest.foldl Kernel.wakeClosedPipeReader
              (kernel.wakeClosedPipeReader index)).pipeWaiters index with
        | none => rfl
        | some slot =>
            have before := later.pipeOld index slot registered
            rw [cleared] at before
            cases before
      · apply ih ((List.mem_cons.mp member).resolve_left here)
        rw [(first.counts index).2.2]
        exact closed

theorem stranded_cleared {machine : Machine} {before after : Kernel}
    (stirred : KernelStirred before after)
    (cleared : ∀ index, (before.pool index).writeCount = 0 → after.pipeWaiters index = none) :
    NoReaderStranded (machine.withKernel after) := by
  intro index slot closed registered
  have shut : (before.pool index).writeCount = 0 := (stirred.counts index).2.2.symm.trans closed
  have none := cleared index shut
  change after.pipeWaiters index = some slot at registered
  rw [none] at registered
  cases registered

/-- Whatever came before it, `wake_closed_pipe_readers` leaves no one behind. -/
theorem stranded_wake_closed (machine : Machine) (kernel : Kernel) :
    NoReaderStranded (machine.withKernel kernel.wakeClosedPipeReaders) := by
  apply stranded_cleared (wake_closed_pipe_readers_stirred kernel)
  intro index shut
  unfold Kernel.wakeClosedPipeReaders
  exact wake_closed_pipe_readers_clears (List.mem_finRange index) shut

theorem stranded_operation (machine : Machine) (operation : Operation)
    (safe : NoReaderStranded machine) (spares : SilentDropsSpareReaders machine operation) :
    NoReaderStranded (operationSystem.step machine operation).1 := by
  have shape := operation_case machine operation
  generalize (operationSystem.step machine operation).1 = result at shape ⊢
  cases shape with
  | idle => exact safe
  | acts running going => exact stranded_perform safe _ running going spares
  | exits present => exact stranded_schedule (stranded_wake_closed machine _)
  | schedules => exact stranded_schedule safe
  | fails => exact safe
  | @spawns kind slot request userRsp running going gathered vacant =>
      refine stranded_kept_counts safe (WaitersKept.of_same ?_ rfl rfl) (fun _ _ => rfl) ?_
      · intro other waits
        by_cases written : other = slot
        · subst written
          simp [isBlocked, Kernel.install, request.ready] at waits
        · simpa only [isBlocked, Kernel.install, Function.update_of_ne written] using waits
      · intro index writable
        simp only [Kernel.install]
        split_ifs
        · have grown := dup_all_le machine.kernel.pool request.child.fdTable index .writing
          simp only [countOf] at grown
          omega
        · exact writable

/-- In every run of completed operations in which the two silent paths spare
the blocked readers, no reader is left waiting for a writer that is gone. -/
theorem last_writer_wakes_reader (operations : List Operation)
    (spares : operationSystem.StepsMeet SilentDropsSpareReaders operationSystem.init operations) :
    NoReaderStranded (operationSystem.runFrom operationSystem.init operations) :=
  EventSystem.run_preserves NoReaderStranded stranded_operation no_reader_stranded_boot spares

theorem run_strands (operations : List Operation) (index : PipeIndex) (slot : Slot)
    (closed : ((operationSystem.runFrom operationSystem.init operations).kernel.pool
      index).writeCount = 0)
    (registered : (operationSystem.runFrom operationSystem.init operations).kernel.pipeWaiters
      index = some slot)
    (waits : waitsFor (operationSystem.runFrom operationSystem.init operations) slot
      (.pipe index.val) = true) :
    ¬∀ operations : List Operation,
      NoReaderStranded (operationSystem.runFrom operationSystem.init operations) := by
  intro safe
  have woken := safe operations index slot closed registered
  rw [waits] at woken
  cases woken

/-- A user task opens a pipe, forks, closes its write end and blocks reading;
the child, which holds the last write end as descriptor 4, makes a call. -/
def readerAndWriter : List Operation :=
  [.spawn (.user 0x10000 0x19000 0x20000 0 0x7000), .act .schedule (by decide),
    .act .syscallEntry (by decide), .act (.pipe 0x6100) (by decide), .act .sysret (by decide),
    .act .syscallEntry (by decide), .spawn (.fork 0x30000 0x39000 0x40000 0x7000),
    .act .sysret (by decide), .act .syscallEntry (by decide), .act (.close 4) (by decide),
    .act .sysret (by decide), .act .syscallEntry (by decide), .act (.readPipe 3 1) (by decide),
    .act (.blockOnPipe 0) (by decide), .act .schedule (by decide),
    .act .syscallEntry (by decide)]

/-- The child replaces descriptor 4 by its standard output. -/
theorem reader_stranded_by_dup2 :
    ¬∀ operations : List Operation,
      NoReaderStranded (operationSystem.runFrom operationSystem.init operations) :=
  run_strands (readerAndWriter ++ [.act (.dup2 1 4) rfl]) ⟨0, by decide⟩ ⟨1, by decide⟩
    (by decide +kernel) (by decide +kernel) (by decide +kernel)

/-- Closing descriptor 4 instead wakes the parent. -/
theorem reader_woken_by_close :
    operationSystem.StepsMeet SilentDropsSpareReaders operationSystem.init
        (readerAndWriter ++ [.act (.close 4) rfl]) ∧
      NoReaderStranded (operationSystem.runFrom operationSystem.init
        (readerAndWriter ++ [.act (.close 4) rfl])) := by
  have spares : operationSystem.StepsMeet SilentDropsSpareReaders operationSystem.init
      (readerAndWriter ++ [.act (.close 4) rfl]) := by
    decide +kernel
  exact ⟨spares, last_writer_wakes_reader _ spares⟩

end Ferrugem.ClosedPipeReaders
