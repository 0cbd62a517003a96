import Ferrugem.ZombieStates

/-!
# Blocked readers and their wait records

The console and each pipe have one wait record. A task that blocks writes its
slot there and a wake-up takes it out, so a task stays reachable for the next
wake-up exactly as long as no second task blocks on the same console or pipe, as
long as a wake-up clears a pipe's record only while it names the reader that was read
from it, and as long as a wake-up that has cleared the record is not switched away
before it has made that reader ready.
-/

namespace Ferrugem.BlockedReaders

open Ferrugem.PipePoolModel Ferrugem.ProcessModel Ferrugem.SchedulerModel
open Ferrugem.KernelMachine Ferrugem.KernelEvolution Ferrugem.TaskLifecycle
open Ferrugem.PreemptedCalls Ferrugem.ZombieStates

set_option autoImplicit false

/-- The task in the slot is blocked, and by this blocking section. -/
def waitsFor (machine : Machine) (slot : Slot) (reason : WaitReason) : Bool :=
  isBlocked machine.kernel slot && machine.blockedOn slot == some reason

/-- The next statement of the call is the test or the store of a wake-up of the slot. -/
def wakes (progress : Progress) (slot : Slot) : Bool :=
  match progress with
  | .statements (.testBlocked woken :: _) => woken == slot
  | .statements (.storeReady woken :: _) => woken == slot
  | _ => false

/-- Every task blocked on a pipe or the console is in the wait record, and the
next wake-up makes it ready; or the running task is just waking it. -/
structure ReadersRegistered (machine : Machine) : Prop where
  pipe : ∀ slot (index : PipeIndex), waitsFor machine slot (.pipe index.val) = true →
    (machine.kernel.pipeWaiters index = some slot ∧
      ((machine.kernel.wakePipeWaiter index.val).tasks slot).map Task.state = some .ready) ∨
      wakes machine.running.progress slot = true
  tty : ∀ slot, waitsFor machine slot .tty = true →
    machine.kernel.ttyWaiter = some slot ∧
      (machine.kernel.wakeTtyWaiter.tasks slot).map Task.state = some .ready

/-- The record part of the property, but for the slots that are being woken. -/
structure RegisteredBut (waking : Slot → Prop) (machine : Machine) : Prop where
  pipe : ∀ slot (index : PipeIndex), waitsFor machine slot (.pipe index.val) = true →
    machine.kernel.pipeWaiters index = some slot ∨ waking slot
  tty : ∀ slot, waitsFor machine slot .tty = true → machine.kernel.ttyWaiter = some slot

def wokenBy (machine : Machine) (slot : Slot) : Prop :=
  wakes machine.running.progress slot = true

theorem waits_for_iff {machine : Machine} {slot : Slot} {reason : WaitReason} :
    waitsFor machine slot reason = true ↔
      isBlocked machine.kernel slot = true ∧ machine.blockedOn slot = some reason := by
  simp [waitsFor]

theorem wake_slot_ready {kernel : Kernel} {slot : Slot} (waits : isBlocked kernel slot = true) :
    ((kernel.wakeSlot slot).tasks slot).map Task.state = some .ready := by
  obtain ⟨task, present, blocked⟩ := is_blocked_iff.mp waits
  simp [Kernel.wakeSlot, present, Kernel.wake, blocked]

theorem readers_registered_iff (machine : Machine) :
    ReadersRegistered machine ↔ RegisteredBut (wokenBy machine) machine := by
  constructor
  · intro registered
    exact ⟨fun slot index waits => (registered.pipe slot index waits).imp_left And.left,
      fun slot waits => (registered.tty slot waits).1⟩
  · intro registered
    refine ⟨fun slot index waits => (registered.pipe slot index waits).imp_left fun record =>
        ⟨record, ?_⟩,
      fun slot waits => ⟨registered.tty slot waits, ?_⟩⟩
    · unfold Kernel.wakePipeWaiter
      rw [dif_pos index.isLt]
      simp only [Fin.eta, record]
      exact wake_slot_ready (waits_for_iff.mp waits).1
    · have record := registered.tty slot waits
      unfold Kernel.wakeTtyWaiter
      simp only [record]
      exact wake_slot_ready (waits_for_iff.mp waits).1

/-- What the move blocks on, if it runs a blocking section on a wait record. -/
def blockReason : Move → Option WaitReason
  | .whole (.blockOnTty _) => some .tty
  | .whole (.blockOnPipe idx) => some (.pipe idx)
  | _ => none

/-- The task that the timer interrupt switches to, if it does. -/
def switchTarget (machine : Machine) : Move → Option Slot
  | .whole .tick =>
      let counted := machine.tickCounted.kernel
      if !machine.halted && !machine.returning && machine.irqsOn &&
          counted.tickCount % 10 == 0 && counted.pickNext != counted.current &&
          (counted.tasks counted.pickNext).isSome && counted.currentTask.isSome then
        some counted.pickNext
      else none
  | _ => none

/-- The pipe whose record the next statement of the running task clears, and the
statements after it. -/
def clearing (machine : Machine) : Move → Option (PipeIndex × List Stage)
  | .advances =>
      match machine.running.progress with
      | .statements (.clearPipeWaiter idx :: rest) =>
          if bound : machine.halted = false ∧ idx < maxPipes then some (⟨idx, bound.2⟩, rest)
          else none
      | _ => none
  | _ => none

/-- A wake-up clears a record only when the reader that waits for the pipe, if any, is the
one that it has read there and wakes next. -/
def ClearsOwn (machine : Machine) (move : Move) : Prop :=
  ∀ record ∈ clearing machine move, ∀ slot,
    waitsFor machine slot (.pipe record.1.val) = true →
      wakes (.statements record.2) slot = true

instance decidableClearsOwn (machine : Machine) (move : Move) :
    Decidable (ClearsOwn machine move) :=
  inferInstanceAs (Decidable (∀ record ∈ clearing machine move, _))

/-- A timer interrupt does not switch tasks while the running one has a reader in
hand that is off the record and that the signals have not ended, unless the next task
is waking it too. -/
def WakesOwn (machine : Machine) (move : Move) : Prop :=
  ∀ incoming ∈ switchTarget machine move, ∀ slot,
    wakes machine.running.progress slot = true → ∀ index : PipeIndex,
      waitsFor machine.tickCounted slot (.pipe index.val) = true →
        machine.kernel.pipeWaiters index = some slot ∨
          wakes (machine.savedStacks incoming).context.progress slot = true

instance decidableWakesOwn (machine : Machine) (move : Move) :
    Decidable (WakesOwn machine move) :=
  inferInstanceAs (Decidable (∀ incoming ∈ switchTarget machine move, _))

/-- A task blocks on a pipe or the console only when no other task is blocked
on it, and the wake-ups of a pipe clear and wake only what they have read. -/
structure KeepsRecords (machine : Machine) (move : Move) : Prop where
  sole : blocks machine move = true → machine.kernel.currentTask.isSome = true →
    ∀ reason ∈ blockReason move, ∀ slot, slot ≠ machine.kernel.current →
      waitsFor machine slot reason = false
  cleared : ClearsOwn machine move
  woken : WakesOwn machine move

theorem keeps_records_iff {machine : Machine} {move : Move} :
    KeepsRecords machine move ↔
      (blocks machine move = true → machine.kernel.currentTask.isSome = true →
        ∀ reason ∈ blockReason move, ∀ slot, slot ≠ machine.kernel.current →
          waitsFor machine slot reason = false) ∧
      ClearsOwn machine move ∧ WakesOwn machine move :=
  ⟨fun keeps => ⟨keeps.sole, keeps.cleared, keeps.woken⟩, fun all => ⟨all.1, all.2.1, all.2.2⟩⟩

instance decidableKeepsRecords (machine : Machine) (move : Move) :
    Decidable (KeepsRecords machine move) :=
  decidable_of_iff' _ keeps_records_iff

section

variable {waking : Slot → Prop} {before after machine : Machine}

theorem registered_mono {more : Slot → Prop} (registered : RegisteredBut waking machine)
    (more_of : ∀ slot, waking slot → more slot) : RegisteredBut more machine :=
  ⟨fun slot index waits => (registered.pipe slot index waits).imp_right (more_of slot),
    registered.tty⟩

theorem registered_kept (registered : RegisteredBut waking before)
    (waiters : WaitersKept before.kernel after.kernel)
    (blockedOn : ∀ slot, isBlocked after.kernel slot = true →
      after.blockedOn slot = before.blockedOn slot) : RegisteredBut waking after where
  pipe := by
    intro slot index waits
    obtain ⟨blocked, reason⟩ := waits_for_iff.mp waits
    rw [blockedOn slot blocked] at reason
    have prior := registered.pipe slot index
      (waits_for_iff.mpr ⟨waiters.blocked slot blocked, reason⟩)
    exact prior.imp_left fun record => waiters.pipe index slot record blocked
  tty := by
    intro slot waits
    obtain ⟨blocked, reason⟩ := waits_for_iff.mp waits
    rw [blockedOn slot blocked] at reason
    exact waiters.tty slot
      (registered.tty slot (waits_for_iff.mpr ⟨waiters.blocked slot blocked, reason⟩)) blocked

theorem registered_same (registered : RegisteredBut waking before)
    (tasks : after.kernel.tasks = before.kernel.tasks)
    (pipeWaiters : after.kernel.pipeWaiters = before.kernel.pipeWaiters)
    (ttyWaiter : after.kernel.ttyWaiter = before.kernel.ttyWaiter)
    (blockedOn : after.blockedOn = before.blockedOn) : RegisteredBut waking after := by
  refine registered_kept registered (WaitersKept.of_same ?_ pipeWaiters ttyWaiter) ?_
  · intro slot
    simp only [isBlocked, tasks]
    exact id
  · intro slot _
    rw [blockedOn]

end

theorem schedule_waiters (machine : Machine) :
    WaitersKept machine.kernel machine.schedule.1.kernel ∧
      machine.schedule.1.blockedOn = machine.blockedOn := by
  have shape := schedule_case machine
  generalize machine.schedule = result at shape ⊢
  cases shape with
  | stays => exact ⟨WaitersKept.refl _, rfl⟩
  | halts => exact ⟨WaitersKept.refl _, rfl⟩
  | @switched next prevTask nextTask picked different incoming outgoing =>
      obtain ⟨irqsOn, fsBase, halted, shape⟩ := resume_keeps
        (machine.switchOut next prevTask nextTask) next (machine.savedStacks next)
      rw [shape]
      exact ⟨WaitersKept.of_same (set_task_blocked outgoing id) rfl rfl, rfl⟩

/-- A task that starts to wait keeps the other tasks and the records that the
blocking section does not write. -/
theorem registered_blocks {waking : Slot → Prop} {machine : Machine} {base : Kernel} {task : Task}
    {reason : WaitReason} {waitingForPid : Nat} (registered : RegisteredBut waking machine)
    (current : base.current = machine.kernel.current) (tasks : base.tasks = machine.kernel.tasks)
    (own : ∀ index : PipeIndex, reason = .pipe index.val →
      base.pipeWaiters index = some machine.kernel.current)
    (ownTty : reason = .tty → base.ttyWaiter = some machine.kernel.current)
    (others : ∀ (index : PipeIndex) slot, slot ≠ machine.kernel.current →
      waitsFor machine slot (.pipe index.val) = true →
      base.pipeWaiters index = machine.kernel.pipeWaiters index)
    (othersTty : ∀ slot, slot ≠ machine.kernel.current → waitsFor machine slot .tty = true →
      base.ttyWaiter = machine.kernel.ttyWaiter) :
    RegisteredBut waking (noteBlocked machine reason (blockedKernel base task waitingForPid)) := by
  have elsewhere : ∀ slot cause, slot ≠ machine.kernel.current →
      waitsFor (noteBlocked machine reason (blockedKernel base task waitingForPid)) slot cause =
        waitsFor machine slot cause := by
    intro slot cause different
    have other : slot ≠ base.current := by rw [current]; exact different
    simp only [waitsFor, isBlocked, noteBlocked, blockedKernel, Machine.withKernel,
      set_task_other base _ other, tasks, Function.update_of_ne different]
  constructor
  · intro slot index waits
    by_cases same : slot = machine.kernel.current
    · subst same
      have cause := (waits_for_iff.mp waits).2
      simp only [noteBlocked, Function.update_self, Option.some.injEq] at cause
      exact .inl (own index cause)
    · rw [elsewhere slot _ same] at waits
      exact (registered.pipe slot index waits).imp_left (others index slot same waits).trans
  · intro slot waits
    by_cases same : slot = machine.kernel.current
    · subst same
      have cause := (waits_for_iff.mp waits).2
      simp only [noteBlocked, Function.update_self, Option.some.injEq] at cause
      exact ownTty cause
    · rw [elsewhere slot _ same] at waits
      exact (othersTty slot same waits).trans (registered.tty slot waits)

theorem reaped_waiters (kernel : Kernel) (reapedSlot : Slot) :
    WaitersKept kernel
      { kernel with tasks := Function.update kernel.tasks reapedSlot none } := by
  refine WaitersKept.of_same ?_ rfl rfl
  intro slot waits
  by_cases cleared : slot = reapedSlot
  · subst cleared
    simp [isBlocked] at waits
  · simpa only [isBlocked, Function.update_of_ne cleared] using waits

theorem registered_perform {waking : Slot → Prop} {machine : Machine} {action : Action}
    (registered : RegisteredBut waking machine) (running : machine.halted = false)
    (going : machine.returning = false ∨ action = .sysret)
    (taken : isInterrupt action = true ∨ staysWhole action = true ∧ atRest machine = true)
    (keeps : KeepsRecords machine (.whole action)) :
    RegisteredBut waking (machine.perform action).1 := by
  have shape := perform_case machine action
  generalize machine.perform action = result at shape ⊢
  cases shape with
  | quiet origin evolves => exact registered_kept registered evolves.waiters fun _ _ => rfl
  | @switches _ before source evolves others =>
      obtain ⟨waiters, blockedOn⟩ := schedule_waiters before
      refine registered_kept registered (evolves.waiters.trans waiters) fun slot _ => ?_
      rw [blockedOn, others]
      rfl
  | halts unchanged =>
      refine registered_kept registered (WaitersKept.refl _) fun slot waits => unchanged slot ?_
      obtain ⟨task, present, -⟩ := is_blocked_iff.mp waits
      change machine.kernel.tasks slot = some task at present
      simp [present]
  | exits present =>
      exact registered_kept registered
        ((pool_evolves _ _).waiters.trans
          (WaitersKept.of_same (set_task_blocked present (by simp [Task.exit])) rfl rfl))
        fun _ _ => rfl
  | @reaps _ _ reapedSlot _ found present =>
      exact registered_kept registered (reaped_waiters machine.kernel reapedSlot) fun _ _ => rfl
  | blocksOnChild absent living present =>
      exact registered_blocks registered rfl rfl (fun _ other => by cases other)
        (fun other => by cases other) (fun _ _ _ _ => rfl) (fun _ _ _ => rfl)
  | blocksOnTty present =>
      have free : machine.returning = false := going.resolve_right (by simp)
      obtain ⟨-, rests⟩ := taken.resolve_left Bool.false_ne_true
      have alone := keeps.sole (by simp [blocks, rests, blocksCurrent, running, free])
        (by simp [present]) .tty rfl
      refine registered_blocks registered rfl rfl (fun _ other => by cases other)
        (fun _ => rfl) (fun _ _ _ _ => rfl) ?_
      intro slot different waits
      rw [alone slot different] at waits
      cases waits
  | @blocksOnPipe index task must present =>
      have free : machine.returning = false := going.resolve_right (by simp)
      obtain ⟨-, rests⟩ := taken.resolve_left Bool.false_ne_true
      have alone := keeps.sole (by simp [blocks, rests, blocksCurrent, running, free, must])
        (by simp [present]) (.pipe index.val) rfl
      refine registered_blocks registered rfl rfl ?_ (fun other => by cases other) ?_
        (fun _ _ _ => rfl)
      · intro other same
        simp only [WaitReason.pipe.injEq] at same
        rw [← Fin.ext same]
        simp
      · intro other slot different waits
        by_cases same : other = index
        · subst same
          rw [alone slot different] at waits
          cases waits
        · simp only [Function.update_of_ne same]
  | gathers unchosen => exact ⟨registered.pipe, registered.tty⟩
  | chooses gathered vacant => exact ⟨registered.pipe, registered.tty⟩
  | @installs target request userRsp chosen =>
      rcases taken with interrupt | ⟨stays, -⟩
      · exact absurd interrupt Bool.false_ne_true
      · exact absurd stays Bool.false_ne_true
  | setsFsBase =>
      exact registered_kept registered (modify_current_waiters fun _ => rfl) fun _ _ => rfl
  | writesFsBase => exact ⟨registered.pipe, registered.tty⟩
  | execs inside =>
      simp only [Machine.execve, inside]
      exact registered_kept registered (modify_current_waiters fun _ => rfl) fun _ _ => rfl
  | movesStack outside => exact ⟨registered.pipe, registered.tty⟩
  | enters outside user => exact ⟨registered.pipe, registered.tty⟩
  | returns inside =>
      refine registered_kept registered ?_ ?_
      · rw [sysret_kernel]
        exact WaitersKept.refl _
      · intro slot waits
        simp only [Machine.sysret, inside, Machine.applyExecRedirect]
        split <;> rfl

theorem wakes_at_rest {machine : Machine} {slot : Slot} (rests : atRest machine = true) :
    ¬wokenBy machine slot := by
  unfold atRest at rests
  unfold wokenBy
  split at rests
  · rename_i left
    simp [left, wakes]
  · cases rests

theorem registered_switched {machine : Machine} {incoming : Slot} {prevTask nextTask : Task}
    (outgoing : machine.kernel.currentTask = some prevTask) :
    let switched := ((machine.switchOut incoming prevTask nextTask).resume incoming
      (machine.savedStacks incoming)).1
    (∀ slot reason, waitsFor switched slot reason = waitsFor machine slot reason) ∧
      switched.kernel.pipeWaiters = machine.kernel.pipeWaiters ∧
      switched.kernel.ttyWaiter = machine.kernel.ttyWaiter ∧
      switched.running = (machine.savedStacks incoming).context := by
  obtain ⟨irqsOn, fsBase, halted, shape⟩ := resume_keeps
    (machine.switchOut incoming prevTask nextTask) incoming (machine.savedStacks incoming)
  dsimp only
  rw [shape]
  refine ⟨?_, rfl, rfl, rfl⟩
  intro slot reason
  have present : machine.kernel.tasks machine.kernel.current = some prevTask := outgoing
  by_cases left : slot = machine.kernel.current
  · subst left
    simp [waitsFor, isBlocked, Machine.switchOut, present]
  · simp [waitsFor, isBlocked, Machine.switchOut, set_task_other _ _ left]

inductive TickCase (machine : Machine) : Machine × Option Event → Option Slot → Prop where
  | unmoved : TickCase machine (machine, none) none
  | counted (halted : Bool) :
      TickCase machine ({ machine.tickCounted with halted := halted }, none) none
  | switched {incoming : Slot} {prevTask nextTask : Task}
      (outgoing : machine.tickCounted.kernel.currentTask = some prevTask) :
      TickCase machine ((machine.tickCounted.switchOut incoming prevTask nextTask).resume incoming
        (machine.tickCounted.savedStacks incoming)) (some incoming)

theorem tick_switches {machine : Machine} (running : machine.halted = false)
    (free : machine.returning = false) :
    TickCase machine (machine.perform .tick) (switchTarget machine (.whole .tick)) := by
  have stays : TickCase machine (machine.tickCounted, none) none := .counted machine.halted
  cases enabled : machine.irqsOn with
  | false => simpa [Machine.perform, switchTarget, enabled] using TickCase.unmoved
  | true =>
      by_cases due : machine.tickCounted.kernel.tickCount % 10 = 0
      · by_cases same : machine.tickCounted.kernel.pickNext = machine.tickCounted.kernel.current
        · simpa [Machine.perform, Machine.tick, Machine.schedule, switchTarget, enabled, due, same]
            using stays
        · cases incoming : machine.tickCounted.kernel.tasks machine.tickCounted.kernel.pickNext with
          | none =>
              simpa [Machine.perform, Machine.tick, Machine.schedule, switchTarget, enabled, due,
                same, incoming] using TickCase.counted true
          | some nextTask =>
              cases outgoing : machine.tickCounted.kernel.currentTask with
              | none =>
                  simpa [Machine.perform, Machine.tick, Machine.schedule, switchTarget, enabled,
                    due, same, incoming, outgoing] using TickCase.counted true
              | some prevTask =>
                  simpa [Machine.perform, Machine.tick, Machine.schedule, switchTarget, enabled,
                    due, same, incoming, outgoing, running, free] using TickCase.switched outgoing
      · simpa [Machine.perform, Machine.tick, switchTarget, enabled, due] using stays

theorem keeps_records_unswitched {machine : Machine} {move : Move}
    (unblocked : blocks machine move = false) (stays : switchTarget machine move = none)
    (keeps : clearing machine move = none) : KeepsRecords machine move where
  sole := by simp [unblocked]
  cleared := by simp [ClearsOwn, keeps]
  woken := by simp [WakesOwn, stays]

theorem registered_counted {machine : Machine} {waking : Slot → Prop}
    (registered : RegisteredBut waking machine) : RegisteredBut waking machine.tickCounted :=
  registered_kept registered (tick_counted_evolves machine).waiters fun _ _ => rfl

theorem registered_tick_iff {machine : Machine}
    (registered : RegisteredBut (wokenBy machine) machine) (running : machine.halted = false)
    (free : machine.returning = false) :
    RegisteredBut (wokenBy (machine.perform .tick).1) (machine.perform .tick).1 ↔
      KeepsRecords machine (.whole .tick) := by
  have unblocked : blocks machine (.whole .tick) = false := by simp [blocks, blocksCurrent]
  have counted := registered_counted registered
  have waiters := (tick_counted_evolves machine).waiters
  have shape := tick_switches running free
  have onward := @keeps_records_unswitched machine (.whole .tick) unblocked
  generalize machine.perform .tick = result at shape ⊢
  generalize target : switchTarget machine (.whole .tick) = incoming at shape onward
  cases shape with
  | unmoved => exact iff_of_true registered (onward rfl rfl)
  | counted halted => exact iff_of_true ⟨counted.pipe, counted.tty⟩ (onward rfl rfl)
  | @switched incoming prevTask nextTask outgoing =>
      obtain ⟨waits, pipeWaiters, ttyWaiter, entered⟩ :=
        @registered_switched machine.tickCounted incoming prevTask nextTask outgoing
      change _ = (machine.savedStacks incoming).context at entered
      constructor
      · intro after
        refine ⟨by simp [unblocked], by simp [ClearsOwn, clearing], ?_⟩
        intro next switched slot waking index waiting
        cases target.symm.trans switched
        rcases after.pipe slot index (by rw [waits]; exact waiting) with record | woken
        · exact .inl (waiters.pipeOld index slot (by rw [← pipeWaiters]; exact record))
        · refine .inr ?_
          rw [← entered]
          exact woken
      · intro keeps
        constructor
        · intro slot index waiting
          rw [waits] at waiting
          rw [pipeWaiters]
          rcases counted.pipe slot index waiting with record | waking
          · exact .inl record
          · rcases keeps.woken incoming target slot waking index waiting with record | woken
            · exact .inl (waiters.pipe index slot record (waits_for_iff.mp waiting).1)
            · refine .inr ?_
              unfold wokenBy
              rw [entered]
              exact woken
        · intro slot waiting
          rw [waits] at waiting
          rw [ttyWaiter]
          exact counted.tty slot waiting

/-- A second reader displaces the first from the wait record, and the first
stays blocked. -/
theorem displaced_reader {machine : Machine} {move : Move} {slot : Slot} {reason : WaitReason}
    (blocking : blocks machine move = true)
    (present : machine.kernel.currentTask.isSome = true) (cause : blockReason move = some reason)
    (different : slot ≠ machine.kernel.current) (waits : waitsFor machine slot reason = true) :
    ¬RegisteredBut (wokenBy (step machine move).1) (step machine move).1 := by
  intro registered
  obtain ⟨task, occupied⟩ := Option.isSome_iff_exists.mp present
  have rests : atRest machine = true := by
    cases move <;> simp only [blocks, Bool.and_eq_true, Bool.false_eq_true] at blocking
    exact blocking.1
  obtain ⟨action, rfl, blocking, same⟩ := blocks_whole blocking
  rw [same] at registered
  simp only [blocksCurrent, Bool.and_eq_true, Bool.not_eq_true'] at blocking
  obtain ⟨⟨running, free⟩, blocking⟩ := blocking
  unfold Machine.step at registered
  rw [if_neg (by simp [running]), if_neg (by simp [free])] at registered
  cases action <;> simp only [blockReason, Option.some.injEq, reduceCtorEq] at cause
  case blockOnTty hasInput =>
    simp only [Bool.not_eq_true'] at blocking
    subst blocking cause
    simp only [Machine.perform, block_on_tty_eq occupied] at registered
    have still := registered.tty slot (by
      simpa [waitsFor, isBlocked, noteBlocked, blockedKernel, Machine.withKernel, Kernel.setTask,
        different] using waits)
    simp only [noteBlocked, blockedKernel, Machine.withKernel, Kernel.setTask,
      Option.some.injEq] at still
    exact different still.symm
  case blockOnPipe idx =>
    subst cause
    have bound := must_block_bound blocking
    have blocked := @block_on_pipe_eq machine ⟨_, bound⟩ task blocking occupied
    dsimp only at blocked
    simp only [Machine.perform, blocked] at registered
    have still := registered.pipe slot ⟨_, bound⟩ (by
      simpa [waitsFor, isBlocked, noteBlocked, blockedKernel, Machine.withKernel, Kernel.setTask,
        different] using waits)
    rcases still with record | woken
    · simp only [noteBlocked, blockedKernel, Machine.withKernel, Kernel.setTask,
        Function.update_self, Option.some.injEq] at record
      exact different record.symm
    · exact wakes_at_rest rests woken

theorem registered_whole_iff {machine : Machine} {action : Action}
    (registered : RegisteredBut (wokenBy machine) machine) (running : machine.halted = false)
    (going : machine.returning = false ∨ action = .sysret)
    (taken : isInterrupt action = true ∨ staysWhole action = true ∧ atRest machine = true)
    (same : step machine (.whole action) = machine.perform action) :
    RegisteredBut (wokenBy (machine.perform action).1) (machine.perform action).1 ↔
      KeepsRecords machine (.whole action) := by
  by_cases ticks : action = .tick
  · subst ticks
    exact registered_tick_iff registered running (going.resolve_right (by simp))
  · have target : switchTarget machine (.whole action) = none := by
      cases action <;> first | rfl | exact absurd rfl ticks
    constructor
    · intro after
      refine ⟨?_, by simp [ClearsOwn, clearing], by simp [WakesOwn, target]⟩
      intro blocking present reason cause slot different
      by_contra waits
      rw [← same] at after
      exact displaced_reader blocking present cause different (by simpa using waits) after
    · intro keeps
      rcases taken with interrupt | ⟨stays, rests⟩
      · have tty : action = .ttyInput := by
          cases action <;> first | rfl | exact absurd rfl ticks | cases interrupt
        subst tty
        have kept := registered_perform registered running going (.inl interrupt) keeps
        refine registered_mono kept fun slot woken => ?_
        simp only [Machine.perform]
        split_ifs <;> exact woken
      · have settled : RegisteredBut (fun _ => False) machine :=
          registered_mono registered fun slot woken => wakes_at_rest rests woken
        exact registered_mono
          (registered_perform settled running going (.inr ⟨stays, rests⟩) keeps)
          fun _ none => none.elim

/-- Apart from the one that clears a record, a statement keeps the records, and a test of
a reader in hand leads to the store. -/
theorem registered_runs {machine : Machine} {stage : Stage} {rest : List Stage}
    (registered : RegisteredBut (wokenBy machine) machine)
    (left : machine.running.progress = .statements (stage :: rest))
    (keeps : ∀ idx, stage ≠ .clearPipeWaiter idx) :
    RegisteredBut (fun slot =>
        wakes (.statements (next machine.kernel stage ++ rest)) slot = true)
      (withProgress (machine.withKernel (effect machine.kernel stage))
        (.statements (next machine.kernel stage ++ rest))) := by
  have change := stage_effect machine.kernel stage
  have earlier : ∀ slot, isBlocked (effect machine.kernel stage) slot = true →
      isBlocked machine.kernel slot = true ∧ stage ≠ .storeReady slot := by
    intro slot blocked
    obtain ⟨task, present, state⟩ := is_blocked_iff.mp blocked
    obtain ⟨prior, priorPresent, moved⟩ := option_rel_before (present ▸ change.tasks slot)
    rcases moved.state with same | ⟨-, ready⟩ | ⟨-, -, zombie⟩
    · refine ⟨is_blocked_iff.mpr ⟨prior, priorPresent, same.symm.trans state⟩, ?_⟩
      rintro rfl
      simp [effect, modifySlot, priorPresent, isBlocked] at blocked
    · rw [ready] at state
      cases state
    · rw [zombie] at state
      cases state
  constructor
  · intro slot index waits
    obtain ⟨blocked, reason⟩ := waits_for_iff.mp waits
    obtain ⟨before, unready⟩ := earlier slot blocked
    change (effect machine.kernel stage).pipeWaiters index = some slot ∨ _
    rcases registered.pipe slot index (waits_for_iff.mpr ⟨before, reason⟩) with record | woken
    · rcases change.pipeWaiters with same | ⟨taken, clears, -⟩
      · exact .inl (by rw [same]; exact record)
      · exact absurd clears (keeps taken.val)
    · refine .inr ?_
      unfold wokenBy at woken
      rw [left] at woken
      unfold wakes at woken
      split at woken
      · rename_i same
        cases same
        simp only [beq_iff_eq] at woken
        subst woken
        simp [next, before, wakes]
      · rename_i same
        cases same
        simp only [beq_iff_eq] at woken
        subst woken
        exact absurd rfl unready
      · cases woken
  · intro slot waits
    obtain ⟨blocked, reason⟩ := waits_for_iff.mp waits
    change (effect machine.kernel stage).ttyWaiter = some slot
    rw [change.ttyWaiter]
    exact registered.tty slot (waits_for_iff.mpr ⟨(earlier slot blocked).1, reason⟩)

theorem clearing_cleared {machine : Machine} {idx : Nat} {rest : List Stage}
    (running : machine.halted = false)
    (left : machine.running.progress = .statements (.clearPipeWaiter idx :: rest))
    (bound : idx < maxPipes) : clearing machine .advances = some (⟨idx, bound⟩, rest) := by
  simp only [clearing, left]
  exact dif_pos ⟨running, bound⟩

theorem clearing_none {machine : Machine}
    (keeps : ∀ idx rest, machine.running.progress = .statements (.clearPipeWaiter idx :: rest) →
      machine.halted = true ∨ ¬idx < maxPipes) : clearing machine .advances = none := by
  simp only [clearing]
  split
  · rename_i idx rest left
    refine dif_neg fun bound => ?_
    rcases keeps idx rest left with halted | outside
    · rw [halted] at bound
      cases bound.1
    · exact outside bound.2
  · rfl

/-- The statement that clears a record leaves the reader that waits for the pipe to the
wake-up that comes next. -/
theorem registered_clears_iff {machine : Machine} {idx : Nat} {rest : List Stage}
    (registered : RegisteredBut (wokenBy machine) machine) (running : machine.halted = false)
    (left : machine.running.progress = .statements (.clearPipeWaiter idx :: rest)) :
    RegisteredBut (fun slot => wakes (.statements rest) slot = true)
        (withProgress (machine.withKernel (effect machine.kernel (.clearPipeWaiter idx)))
          (.statements rest)) ↔
      KeepsRecords machine .advances := by
  have settled : RegisteredBut (fun _ => False) machine :=
    registered_mono registered fun slot woken => by
      simp [wokenBy, left, wakes] at woken
  by_cases bound : idx < maxPipes
  · have cleared := clearing_cleared running left bound
    have after : effect machine.kernel (.clearPipeWaiter idx) =
        { machine.kernel with
          pipeWaiters := Function.update machine.kernel.pipeWaiters ⟨idx, bound⟩ none } :=
      dif_pos bound
    rw [after]
    constructor
    · intro later
      refine ⟨fun blocking => by simp [blocks] at blocking, ?_,
        fun incoming switched => by simp [switchTarget] at switched⟩
      intro record member slot waits
      rw [cleared] at member
      cases member
      rcases later.pipe slot ⟨idx, bound⟩ waits with recorded | woken
      · simp [withProgress, Machine.withKernel] at recorded
      · exact woken
    · intro keeps
      refine ⟨fun slot index waits => ?_, settled.tty⟩
      have recorded := (settled.pipe slot index waits).resolve_right id
      by_cases here : index = ⟨idx, bound⟩
      · subst here
        exact .inr (keeps.cleared _ cleared slot waits)
      · refine .inl ?_
        change Function.update machine.kernel.pipeWaiters ⟨idx, bound⟩ none index = some slot
        rw [Function.update_of_ne here]
        exact recorded
  · have after : effect machine.kernel (.clearPipeWaiter idx) = machine.kernel := dif_neg bound
    rw [after]
    refine iff_of_true ?_ (keeps_records_unswitched rfl rfl (clearing_none ?_))
    · exact registered_mono (registered_same settled rfl rfl rfl rfl)
        fun _ none => none.elim
    · intro other later same
      rw [left] at same
      cases same
      exact .inr bound

theorem registered_stored {machine : Machine} {request : Kernel.SpawnRequest} {userRsp : Nat}
    {target : Slot} {pid : Nat} {waking : Slot → Prop} (registered : RegisteredBut waking machine) :
    RegisteredBut waking (storeTask machine request userRsp target pid) := by
  refine registered_kept registered (WaitersKept.of_same ?_ rfl rfl) fun _ _ => rfl
  intro slot waits
  by_cases written : slot = target
  · subst written
    simp [isBlocked, storeTask, withProgress, Machine.withKernel, pointEffect, request.ready]
      at waits
  · simpa only [isBlocked, storeTask, withProgress, Machine.withKernel, pointEffect,
      Function.update_of_ne written] using waits

theorem whole_performed (machine : Machine) (action : Action) :
    (step machine (.whole action) = machine.perform action ∧ machine.halted = false ∧
      (machine.returning = false ∨ action = .sysret) ∧
      (isInterrupt action = true ∨ staysWhole action = true ∧ atRest machine = true)) ∨
    step machine (.whole action) = (machine, none) ∧ blocks machine (.whole action) = false ∧
      switchTarget machine (.whole action) = none := by
  unfold step
  dsimp only
  split_ifs with taken
  · simp only [Bool.or_eq_true, Bool.and_eq_true] at taken
    unfold Machine.step
    split_ifs with halted pending
    · refine .inr ⟨rfl, by simp [blocks, blocksCurrent, halted], ?_⟩
      cases action <;> simp [switchTarget, halted]
    · refine .inr ⟨rfl, by simp [blocks, blocksCurrent, pending.1], ?_⟩
      cases action <;> simp [switchTarget, pending.1]
    · refine .inl ⟨rfl, by simpa using halted, ?_, taken⟩
      by_cases leaving : action = .sysret
      · exact .inr leaving
      · exact .inl (by simpa [leaving] using pending)
  · simp only [Bool.or_eq_true, Bool.and_eq_true, not_or, Bool.not_eq_true, not_and] at taken
    refine .inr ⟨rfl, ?_, ?_⟩
    · simp only [blocks]
      by_contra blocking
      simp only [Bool.not_eq_false, Bool.and_eq_true] at blocking
      exact absurd blocking.1 (by simp [taken.2 (blocks_stays_whole blocking.2)])
    · cases action <;> first | rfl | exact absurd taken.1 (by decide)

theorem registered_advances_iff {machine : Machine}
    (registered : RegisteredBut (wokenBy machine) machine) (running : machine.halted = false) :
    RegisteredBut (wokenBy (step machine .advances).1) (step machine .advances).1 ↔
      KeepsRecords machine .advances := by
  have unmoved (keeps : ∀ idx rest,
      machine.running.progress ≠ .statements (.clearPipeWaiter idx :: rest)) :
      KeepsRecords machine .advances :=
    keeps_records_unswitched rfl rfl (clearing_none fun idx rest left => absurd left (keeps idx rest))
  have asleep (rests : ∀ slot, wakes machine.running.progress slot = false) :
      RegisteredBut (fun _ => False) machine :=
    registered_mono registered fun slot woken => by
      rw [wokenBy, rests] at woken
      cases woken
  have shape := advances_case running
  generalize step machine .advances = result at shape ⊢
  cases shape with
  | idle rests =>
      exact iff_of_true registered (unmoved fun idx rest => rests _ _ rfl running)
  | @switches rest running left =>
      refine iff_of_true ?_ (unmoved (by simp [left]))
      have popped : RegisteredBut (fun _ => False) (withProgress machine (.statements rest)) :=
        registered_same (asleep (by simp [left, wakes])) rfl rfl rfl rfl
      obtain ⟨waiters, blockedOn⟩ := schedule_waiters (withProgress machine (.statements rest))
      exact registered_mono
        (registered_kept popped waiters fun slot _ => by rw [blockedOn])
        fun _ none => none.elim
  | @runs stage rest running left stays =>
      by_cases clears : ∃ idx, stage = .clearPipeWaiter idx
      · obtain ⟨idx, rfl⟩ := clears
        exact registered_clears_iff registered running left
      · simp only [not_exists] at clears
        refine iff_of_true (registered_runs registered left clears) (unmoved fun idx later same => ?_)
        rw [left] at same
        cases same
        exact clears idx rfl
  | @creates request userRsp point running left earlier =>
      refine iff_of_true ?_ (unmoved (by simp [left]))
      obtain ⟨tasks, -, ttyWaiter, pipeWaiters⟩ :=
        @point_effect_earlier request point machine.kernel earlier
      exact registered_mono
        (registered_same (asleep (by simp [left, wakes])) tasks pipeWaiters ttyWaiter rfl)
        fun _ none => none.elim
  | @installs request userRsp target pid running left =>
      refine iff_of_true ?_ (unmoved (by simp [left]))
      exact registered_mono (registered_stored (asleep (by simp [left, wakes])))
        fun _ none => none.elim

theorem registered_step_iff (machine : Machine) (move : Move)
    (registered : ReadersRegistered machine) :
    ReadersRegistered (step machine move).1 ↔ KeepsRecords machine move := by
  rw [readers_registered_iff] at registered ⊢
  cases move with
  | whole action =>
      rcases whole_performed machine action with ⟨same, running, going, taken⟩ |
        ⟨same, unblocked, stays⟩
      · rw [same]
        exact registered_whole_iff registered running going taken same
      · rw [same]
        exact iff_of_true registered (keeps_records_unswitched unblocked stays rfl)
  | begins call =>
      refine iff_of_true ?_ (keeps_records_unswitched rfl rfl rfl)
      have shape := move_case machine (.begins call)
      generalize step machine (.begins call) = result at shape ⊢
      cases shape with
      | idle => exact registered
      | begins running rests =>
          have settled := registered_mono registered fun slot woken =>
            wakes_at_rest rests woken
          exact registered_mono (registered_same settled rfl rfl rfl rfl)
            fun _ none => none.elim
  | advances =>
      have unmoved : (∀ idx rest,
          machine.running.progress = .statements (.clearPipeWaiter idx :: rest) →
            machine.halted = true ∨ ¬idx < maxPipes) → KeepsRecords machine .advances :=
        fun keeps => keeps_records_unswitched rfl rfl (clearing_none keeps)
      cases running : machine.halted with
      | true =>
          have idle : step machine .advances = (machine, none) := by simp [step, running]
          rw [idle]
          exact iff_of_true registered (unmoved fun _ _ _ => .inl running)
      | false => exact registered_advances_iff registered running

theorem registered_boot : ReadersRegistered bootMachine :=
  ⟨fun _ _ waits => by simp [waitsFor, bootMachine] at waits,
    fun _ waits => by simp [waitsFor, bootMachine] at waits⟩

/-- In a run from boot every blocked reader is registered in every state reached,
exactly when no task blocks where another one is blocked already, no wake-up clears
the record of a reader that it has not read, and none is switched away from with a
reader in hand. -/
theorem readers_registered_iff_kept (moves : List Move) :
    (∀ before, before <+: moves →
      ReadersRegistered (preemptedSystem.runFrom preemptedSystem.init before)) ↔
      preemptedSystem.StepsMeet KeepsRecords preemptedSystem.init moves :=
  EventSystem.reached_satisfy_iff ReadersRegistered registered_step_iff moves registered_boot

theorem run_displaces (moves : List Move) (move : Move) (slot : Slot) (reason : WaitReason)
    (blocking : blocks (preemptedSystem.runFrom preemptedSystem.init moves) move = true)
    (present :
      (preemptedSystem.runFrom preemptedSystem.init moves).kernel.currentTask.isSome = true)
    (cause : blockReason move = some reason)
    (different : slot ≠ (preemptedSystem.runFrom preemptedSystem.init moves).kernel.current)
    (waits : waitsFor (preemptedSystem.runFrom preemptedSystem.init moves) slot reason = true) :
    ¬∀ moves : List Move,
      ReadersRegistered (preemptedSystem.runFrom preemptedSystem.init moves) := by
  intro registered
  have after := registered (moves ++ [move])
  rw [preemptedSystem.run_from_append, readers_registered_iff] at after
  exact displaced_reader blocking present cause different waits after

/-- A user task opens a pipe, forks and blocks reading it; the child reads the
same pipe. -/
def twoReaders : List Move :=
  .begins (.spawn (.user 0x10000 0x19000 0x20000 0 0x7000)) :: advances 6 ++
    [.whole .schedule, .whole (.pipe 0x6100),
      .begins (.spawn (.fork 0x30000 0x39000 0x40000 0x7000))] ++ advances 23 ++
    [.whole (.readPipe 3 1), .whole (.blockOnPipe 0), .whole .schedule, .whole (.readPipe 3 1)]

/-- The child's `block_on_pipe` drops the record of the blocked parent. -/
theorem reader_displaced_by_forked_child :
    ¬∀ moves : List Move,
      ReadersRegistered (preemptedSystem.runFrom preemptedSystem.init moves) :=
  run_displaces twoReaders (.whole (.blockOnPipe 0)) ⟨1, by decide⟩ (.pipe 0) (by decide +kernel)
    (by decide +kernel) rfl (by decide +kernel) (by decide +kernel)

end Ferrugem.BlockedReaders
