import Mathlib.Data.Option.Basic
import Ferrugem.DescriptorSyscalls

/-!
# What an operation leaves alone

Three relations between the kernel states before and after an operation, from
the weakest to the strongest: `WaitersKept` (no wait record is lost while its
task still waits), `KernelEvolves` (every task keeps its identity, and a zombie
its fate), and `KernelStirred` (wake-ups and signals only: no task dies and no
descriptor or reference count changes). Every operation outside the machine
level is placed in the strongest one it meets, once.
-/

namespace Ferrugem.KernelEvolution

open Ferrugem.PipePoolModel Ferrugem.ProcessModel Ferrugem.SchedulerModel
open Ferrugem.DescriptorSyscalls

set_option autoImplicit false

theorem option_rel_refl {Item : Type} {Related : Item → Item → Prop}
    (refl : ∀ item, Related item item) (item : Option Item) : Option.Rel Related item item := by
  cases item with
  | none => exact .none
  | some item => exact .some (refl item)

theorem option_rel_trans {Item : Type} {Related : Item → Item → Prop}
    {first second third : Option Item}
    (left : Option.Rel Related first second) (right : Option.Rel Related second third)
    (trans : ∀ first second third, Related first second → Related second third →
      Related first third) :
    Option.Rel Related first third := by
  cases left with
  | none => exact right
  | some left =>
      cases right with
      | some right => exact .some (trans _ _ _ left right)

theorem option_rel_before {Item : Type} {Related : Item → Item → Prop} {before : Option Item}
    {after : Item} (related : Option.Rel Related before (some after)) :
    ∃ prior, before = some prior ∧ Related prior after := by
  cases related with
  | some related => exact ⟨_, rfl, related⟩

theorem option_rel_after {Item : Type} {Related : Item → Item → Prop} {before : Item}
    {after : Option Item} (related : Option.Rel Related (some before) after) :
    ∃ later, after = some later ∧ Related before later := by
  cases related with
  | some related => exact ⟨_, rfl, related⟩

def isBlocked (kernel : Kernel) (slot : Slot) : Bool :=
  (kernel.tasks slot).any fun task => task.state == .blocked

theorem is_blocked_iff {kernel : Kernel} {slot : Slot} :
    isBlocked kernel slot = true ↔
      ∃ task, kernel.tasks slot = some task ∧ task.state = .blocked := by
  simp [isBlocked, Option.any_eq_true]

/-- No task starts to wait, no wait record is added, and a record that
disappears was of a task that no longer waits. -/
structure WaitersKept (before after : Kernel) : Prop where
  blocked : ∀ slot, isBlocked after slot = true → isBlocked before slot = true
  pipe : ∀ index slot, before.pipeWaiters index = some slot → isBlocked after slot = true →
    after.pipeWaiters index = some slot
  pipeOld : ∀ index slot, after.pipeWaiters index = some slot →
    before.pipeWaiters index = some slot
  tty : ∀ slot, before.ttyWaiter = some slot → isBlocked after slot = true →
    after.ttyWaiter = some slot

namespace WaitersKept

theorem of_same {before after : Kernel}
    (blocked : ∀ slot, isBlocked after slot = true → isBlocked before slot = true)
    (pipeWaiters : after.pipeWaiters = before.pipeWaiters)
    (ttyWaiter : after.ttyWaiter = before.ttyWaiter) : WaitersKept before after where
  blocked := blocked
  pipe := fun index slot registered _ => by rw [pipeWaiters]; exact registered
  pipeOld := fun index slot registered => by rw [← pipeWaiters]; exact registered
  tty := fun slot registered _ => by rw [ttyWaiter]; exact registered

theorem refl (kernel : Kernel) : WaitersKept kernel kernel :=
  of_same (fun _ waits => waits) rfl rfl

theorem trans {first second third : Kernel} (left : WaitersKept first second)
    (right : WaitersKept second third) : WaitersKept first third where
  blocked := fun slot waits => left.blocked slot (right.blocked slot waits)
  pipe := fun index slot registered waits =>
    right.pipe index slot (left.pipe index slot registered (right.blocked slot waits)) waits
  pipeOld := fun index slot registered => left.pipeOld index slot (right.pipeOld index slot registered)
  tty := fun slot registered waits =>
    right.tty slot (left.tty slot registered (right.blocked slot waits)) waits

end WaitersKept

/-- The changes every operation may make to a task record: identity is kept, a
zombie stays the same zombie, and no task starts to wait or changes what it
waits for. -/
structure TaskEvolves (before after : Task) : Prop where
  pid : after.pid = before.pid
  ppid : after.ppid = before.ppid
  zombie : before.state = .zombie → after.state = .zombie
  exitCode : before.state = .zombie → after.exitCode = before.exitCode
  waits : after.state = .blocked →
    before.state = .blocked ∧ after.waitingForPid = before.waitingForPid

theorem TaskEvolves.refl (task : Task) : TaskEvolves task task :=
  ⟨rfl, rfl, id, fun _ => rfl, fun waiting => ⟨waiting, rfl⟩⟩

theorem TaskEvolves.trans {first second third : Task}
    (left : TaskEvolves first second) (right : TaskEvolves second third) :
    TaskEvolves first third where
  pid := right.pid.trans left.pid
  ppid := right.ppid.trans left.ppid
  zombie := fun dead => right.zombie (left.zombie dead)
  exitCode := fun dead => (right.exitCode (left.zombie dead)).trans (left.exitCode dead)
  waits := by
    intro waiting
    obtain ⟨middle, target⟩ := right.waits waiting
    obtain ⟨early, same⟩ := left.waits middle
    exact ⟨early, target.trans same⟩

/-- An operation that keeps every slot occupied as it is, evolves each task
and touches no saved `FS.base`. -/
structure KernelEvolves (before after : Kernel) : Prop where
  tasks : ∀ slot, Option.Rel TaskEvolves (before.tasks slot) (after.tasks slot)
  fsBase : ∀ slot, (after.tasks slot).map Task.fsBase = (before.tasks slot).map Task.fsBase
  current : after.current = before.current
  nextPid : after.nextPid = before.nextPid
  waiters : WaitersKept before after

namespace KernelEvolves

theorem refl (kernel : Kernel) : KernelEvolves kernel kernel :=
  ⟨fun _ => option_rel_refl TaskEvolves.refl _, fun _ => rfl, rfl, rfl, WaitersKept.refl kernel⟩

theorem trans {first second third : Kernel} (left : KernelEvolves first second)
    (right : KernelEvolves second third) : KernelEvolves first third where
  tasks := fun slot =>
    option_rel_trans (left.tasks slot) (right.tasks slot) fun _ _ _ => TaskEvolves.trans
  fsBase := fun slot => (right.fsBase slot).trans (left.fsBase slot)
  current := right.current.trans left.current
  nextPid := right.nextPid.trans left.nextPid
  waiters := left.waiters.trans right.waiters

theorem foldl {Item : Type} (operation : Kernel → Item → Kernel)
    (evolves : ∀ kernel item, KernelEvolves kernel (operation kernel item))
    (items : List Item) (kernel : Kernel) :
    KernelEvolves kernel (items.foldl operation kernel) := by
  induction items generalizing kernel with
  | nil => exact refl kernel
  | cons item rest ih => exact (evolves kernel item).trans (ih _)

theorem task_before {before after : Kernel} (evolves : KernelEvolves before after) {slot : Slot}
    {task : Task} (present : after.tasks slot = some task) :
    ∃ prior, before.tasks slot = some prior ∧ TaskEvolves prior task :=
  option_rel_before (present ▸ evolves.tasks slot)

theorem task_after {before after : Kernel} (evolves : KernelEvolves before after) {slot : Slot}
    {task : Task} (present : before.tasks slot = some task) :
    ∃ later, after.tasks slot = some later ∧ TaskEvolves task later :=
  option_rel_after (present ▸ evolves.tasks slot)

theorem of_tasks_eq {before after : Kernel} (tasks : after.tasks = before.tasks)
    (current : after.current = before.current) (nextPid : after.nextPid = before.nextPid)
    (pipeWaiters : after.pipeWaiters = before.pipeWaiters)
    (ttyWaiter : after.ttyWaiter = before.ttyWaiter) :
    KernelEvolves before after where
  tasks := fun slot => by rw [tasks]; exact option_rel_refl TaskEvolves.refl _
  fsBase := fun slot => by rw [tasks]
  current := current
  nextPid := nextPid
  waiters := WaitersKept.of_same (fun slot waits => by simpa only [isBlocked, tasks] using waits)
    pipeWaiters ttyWaiter

end KernelEvolves

/-- Wake-ups and signals: a task may become ready, but it neither dies nor
starts to wait, and nothing else of it changes but its wait target and its
pending signals. -/
structure TaskStirred (before after : Task) : Prop where
  pid : after.pid = before.pid
  ppid : after.ppid = before.ppid
  exitCode : after.exitCode = before.exitCode
  fdTable : after.fdTable = before.fdTable
  fsBase : after.fsBase = before.fsBase
  zombie : after.state = .zombie ↔ before.state = .zombie
  blocked : after.state = .blocked → before.state = .blocked
  waitTarget : after.state = .blocked → after.waitingForPid = before.waitingForPid

theorem TaskStirred.refl (task : Task) : TaskStirred task task :=
  ⟨rfl, rfl, rfl, rfl, rfl, Iff.rfl, id, fun _ => rfl⟩

theorem TaskStirred.trans {first second third : Task}
    (left : TaskStirred first second) (right : TaskStirred second third) :
    TaskStirred first third where
  pid := right.pid.trans left.pid
  ppid := right.ppid.trans left.ppid
  exitCode := right.exitCode.trans left.exitCode
  fdTable := right.fdTable.trans left.fdTable
  fsBase := right.fsBase.trans left.fsBase
  zombie := right.zombie.trans left.zombie
  blocked := fun waiting => left.blocked (right.blocked waiting)
  waitTarget := fun waiting =>
    (right.waitTarget waiting).trans (left.waitTarget (right.blocked waiting))

theorem TaskStirred.evolves {before after : Task} (stirred : TaskStirred before after) :
    TaskEvolves before after :=
  ⟨stirred.pid, stirred.ppid, stirred.zombie.mpr, fun _ => stirred.exitCode,
    fun waiting => ⟨stirred.blocked waiting, stirred.waitTarget waiting⟩⟩

def sameCounts (before after : PipeSlot) : Prop :=
  after.inUse = before.inUse ∧ after.readCount = before.readCount ∧
    after.writeCount = before.writeCount

structure KernelStirred (before after : Kernel) : Prop where
  tasks : ∀ slot, Option.Rel TaskStirred (before.tasks slot) (after.tasks slot)
  counts : ∀ index, sameCounts (before.pool index) (after.pool index)
  current : after.current = before.current
  nextPid : after.nextPid = before.nextPid
  waiters : WaitersKept before after

theorem blocked_of_stirred {before after : Kernel}
    (tasks : ∀ slot, Option.Rel TaskStirred (before.tasks slot) (after.tasks slot)) (slot : Slot)
    (waits : isBlocked after slot = true) : isBlocked before slot = true := by
  obtain ⟨task, present, blocked⟩ := is_blocked_iff.mp waits
  obtain ⟨prior, priorPresent, change⟩ := option_rel_before (present ▸ tasks slot)
  exact is_blocked_iff.mpr ⟨prior, priorPresent, change.blocked blocked⟩

namespace KernelStirred

theorem refl (kernel : Kernel) : KernelStirred kernel kernel :=
  ⟨fun _ => option_rel_refl TaskStirred.refl _, fun _ => ⟨rfl, rfl, rfl⟩, rfl, rfl,
    WaitersKept.refl kernel⟩

theorem trans {first second third : Kernel} (left : KernelStirred first second)
    (right : KernelStirred second third) : KernelStirred first third where
  tasks := fun slot =>
    option_rel_trans (left.tasks slot) (right.tasks slot) fun _ _ _ => TaskStirred.trans
  counts := fun index =>
    ⟨(right.counts index).1.trans (left.counts index).1,
      (right.counts index).2.1.trans (left.counts index).2.1,
      (right.counts index).2.2.trans (left.counts index).2.2⟩
  current := right.current.trans left.current
  nextPid := right.nextPid.trans left.nextPid
  waiters := left.waiters.trans right.waiters

theorem foldl {Item : Type} (operation : Kernel → Item → Kernel)
    (stirs : ∀ kernel item, KernelStirred kernel (operation kernel item))
    (items : List Item) (kernel : Kernel) :
    KernelStirred kernel (items.foldl operation kernel) := by
  induction items generalizing kernel with
  | nil => exact refl kernel
  | cons item rest ih => exact (stirs kernel item).trans (ih _)

theorem evolves {before after : Kernel} (stirred : KernelStirred before after) :
    KernelEvolves before after where
  tasks := fun slot => by
    have related := stirred.tasks slot
    generalize before.tasks slot = prior at related ⊢
    generalize after.tasks slot = later at related ⊢
    cases related with
    | none => exact .none
    | some change => exact .some change.evolves
  fsBase := fun slot => by
    have related := stirred.tasks slot
    generalize before.tasks slot = prior at related ⊢
    generalize after.tasks slot = later at related ⊢
    cases related with
    | none => rfl
    | some change => simp [change.fsBase]
  current := stirred.current
  nextPid := stirred.nextPid
  waiters := stirred.waiters

end KernelStirred

structure KernelSpares (before after : Kernel) : Prop extends KernelEvolves before after where
  spares : ∀ slot task, after.tasks slot = some task → task.state = .zombie →
    ∃ prior, before.tasks slot = some prior ∧ prior.state = .zombie

namespace KernelSpares

theorem refl (kernel : Kernel) : KernelSpares kernel kernel :=
  ⟨KernelEvolves.refl kernel, fun _ task present dead => ⟨task, present, dead⟩⟩

theorem trans {first second third : Kernel} (left : KernelSpares first second)
    (right : KernelSpares second third) : KernelSpares first third where
  toKernelEvolves := left.toKernelEvolves.trans right.toKernelEvolves
  spares := by
    intro slot task present dead
    obtain ⟨middle, middlePresent, middleDead⟩ := right.spares slot task present dead
    exact left.spares slot middle middlePresent middleDead

end KernelSpares

theorem KernelStirred.spares {before after : Kernel} (stirred : KernelStirred before after) :
    KernelSpares before after where
  toKernelEvolves := stirred.evolves
  spares := by
    intro slot task present dead
    obtain ⟨prior, priorPresent, change⟩ := option_rel_before (present ▸ stirred.tasks slot)
    exact ⟨prior, priorPresent, change.zombie.mp dead⟩

theorem mem_task_slots_iff : ∀ slot : Slot, slot ∈ taskSlots ↔ slot ≠ idleSlot := by decide

theorem mem_task_slots {slot : Slot} (different : slot ≠ idleSlot) : slot ∈ taskSlots :=
  (mem_task_slots_iff slot).mpr different

@[simp] theorem set_task_same (kernel : Kernel) (slot : Slot) (task : Task) :
    (kernel.setTask slot task).tasks slot = some task := by
  simp [Kernel.setTask]

theorem set_task_other (kernel : Kernel) {slot other : Slot} (task : Task)
    (different : other ≠ slot) :
    (kernel.setTask slot task).tasks other = kernel.tasks other := by
  simp [Kernel.setTask, different]

/-- A property of the contents of every slot that holds for the written task
and of the other slots holds after `setTask`. -/
theorem set_task_cases (Holds : Slot → Option Task → Prop) (kernel : Kernel) (slot : Slot)
    (task : Task) (written : Holds slot (some task))
    (others : ∀ other, other ≠ slot → Holds other (kernel.tasks other)) :
    ∀ other, Holds other ((kernel.setTask slot task).tasks other) := by
  intro other
  by_cases same : other = slot
  · subst same
    simpa using written
  · rw [set_task_other kernel task same]
    exact others other same

theorem set_task_blocked {kernel : Kernel} {slot : Slot} {before after : Task}
    (present : kernel.tasks slot = some before)
    (waits : after.state = .blocked → before.state = .blocked) (other : Slot)
    (blocked : isBlocked (kernel.setTask slot after) other = true) :
    isBlocked kernel other = true := by
  by_cases same : other = slot
  · subst same
    simp only [isBlocked, set_task_same, Option.any_some, beq_iff_eq] at blocked
    exact is_blocked_iff.mpr ⟨before, present, waits blocked⟩
  · simpa only [isBlocked, set_task_other kernel after same] using blocked

theorem set_task_evolves {kernel : Kernel} {slot : Slot} {before after : Task}
    (present : kernel.tasks slot = some before) (evolves : TaskEvolves before after)
    (fsBase : after.fsBase = before.fsBase) :
    KernelEvolves kernel (kernel.setTask slot after) where
  tasks := set_task_cases
    (fun other task => Option.Rel TaskEvolves (kernel.tasks other) task) kernel slot after
    (by rw [present]; exact .some evolves) (fun _ _ => option_rel_refl TaskEvolves.refl _)
  fsBase := set_task_cases
    (fun other task => task.map Task.fsBase = (kernel.tasks other).map Task.fsBase)
    kernel slot after
    (by simp [present, fsBase]) (fun _ _ => rfl)
  current := rfl
  nextPid := rfl
  waiters := WaitersKept.of_same
    (set_task_blocked present fun waiting => (evolves.waits waiting).1) rfl rfl

theorem pool_evolves (kernel : Kernel) (pool : Pool) :
    KernelEvolves kernel { kernel with pool := pool } :=
  KernelEvolves.of_tasks_eq rfl rfl rfl rfl rfl

theorem pool_set_task_evolves {kernel : Kernel} {slot : Slot} {before after : Task} (pool : Pool)
    (present : kernel.tasks slot = some before) (evolves : TaskEvolves before after)
    (fsBase : after.fsBase = before.fsBase) :
    KernelEvolves kernel ({ kernel with pool := pool }.setTask slot after) :=
  (pool_evolves kernel pool).trans (set_task_evolves present evolves fsBase)

theorem set_task_stirred {kernel : Kernel} {slot : Slot} {before after : Task}
    (present : kernel.tasks slot = some before) (stirred : TaskStirred before after) :
    KernelStirred kernel (kernel.setTask slot after) where
  tasks := set_task_cases
    (fun other task => Option.Rel TaskStirred (kernel.tasks other) task) kernel slot after
    (by rw [present]; exact .some stirred) (fun _ _ => option_rel_refl TaskStirred.refl _)
  counts := fun _ => ⟨rfl, rfl, rfl⟩
  current := rfl
  nextPid := rfl
  waiters := WaitersKept.of_same (set_task_blocked present stirred.blocked) rfl rfl

theorem wake_stirred (task : Task) : TaskStirred task (Kernel.wake task) := by
  unfold Kernel.wake
  split_ifs with waiting
  · exact ⟨rfl, rfl, rfl, rfl, rfl, by simp [waiting], by simp, by simp⟩
  · exact TaskStirred.refl task

theorem wake_not_blocked (task : Task) : (Kernel.wake task).state ≠ .blocked := by
  unfold Kernel.wake
  split_ifs with waiting
  · simp
  · exact waiting

theorem wake_slot_stirred (kernel : Kernel) (slot : Slot) :
    KernelStirred kernel (kernel.wakeSlot slot) := by
  unfold Kernel.wakeSlot
  split
  · rename_i task present
    exact set_task_stirred present (wake_stirred task)
  · exact KernelStirred.refl kernel

theorem wake_slot_pipe_waiters (kernel : Kernel) (slot : Slot) :
    (kernel.wakeSlot slot).pipeWaiters = kernel.pipeWaiters := by
  unfold Kernel.wakeSlot
  split <;> rfl

theorem wake_slot_tty_waiter (kernel : Kernel) (slot : Slot) :
    (kernel.wakeSlot slot).ttyWaiter = kernel.ttyWaiter := by
  unfold Kernel.wakeSlot
  split <;> rfl

theorem wake_slot_not_blocked (kernel : Kernel) (slot : Slot) :
    isBlocked (kernel.wakeSlot slot) slot = false := by
  unfold Kernel.wakeSlot
  split
  · simp [isBlocked, wake_not_blocked]
  · rename_i empty
    simp [isBlocked, empty]

theorem wake_child_waiters_stirred (kernel : Kernel) (exitingPid parentPid : Nat) :
    KernelStirred kernel (kernel.wakeChildWaiters exitingPid parentPid) := by
  have tasks : ∀ slot, Option.Rel TaskStirred (kernel.tasks slot)
      ((kernel.wakeChildWaiters exitingPid parentPid).tasks slot) := by
    intro slot
    simp only [Kernel.wakeChildWaiters]
    cases kernel.tasks slot with
    | none => exact .none
    | some task =>
        refine .some ?_
        dsimp only
        split_ifs with woken
        · have waiting : task.state = .blocked := by
            simp only [Kernel.wakesOnExit, Bool.and_eq_true, beq_iff_eq] at woken
            exact woken.1
          exact ⟨rfl, rfl, rfl, rfl, rfl, by simp [waiting], by simp, by simp⟩
        · exact TaskStirred.refl task
  exact ⟨tasks, fun _ => ⟨rfl, rfl, rfl⟩, rfl, rfl,
    WaitersKept.of_same (blocked_of_stirred tasks) rfl rfl⟩

theorem take_and_wake_stirred {kernel taken : Kernel} {slot : Slot}
    (tasks : taken.tasks = kernel.tasks) (pool : taken.pool = kernel.pool)
    (current : taken.current = kernel.current) (nextPid : taken.nextPid = kernel.nextPid)
    (pipe : ∀ index other, kernel.pipeWaiters index = some other →
      taken.pipeWaiters index = some other ∨ other = slot)
    (pipeOld : ∀ index other, taken.pipeWaiters index = some other →
      kernel.pipeWaiters index = some other)
    (tty : ∀ other, kernel.ttyWaiter = some other →
      taken.ttyWaiter = some other ∨ other = slot) :
    KernelStirred kernel (taken.wakeSlot slot) := by
  have woken := wake_slot_stirred taken slot
  have awake := wake_slot_not_blocked taken slot
  have stirred : ∀ other, Option.Rel TaskStirred (kernel.tasks other)
      ((taken.wakeSlot slot).tasks other) := by
    intro other
    rw [← tasks]
    exact woken.tasks other
  refine ⟨stirred, ?_, woken.current.trans current, woken.nextPid.trans nextPid,
    blocked_of_stirred stirred, ?_, ?_, ?_⟩
  · intro index
    rw [← pool]
    exact woken.counts index
  · intro index other registered waits
    rw [wake_slot_pipe_waiters]
    refine (pipe index other registered).resolve_right ?_
    rintro rfl
    rw [awake] at waits
    cases waits
  · intro index other registered
    rw [wake_slot_pipe_waiters] at registered
    exact pipeOld index other registered
  · intro other registered waits
    rw [wake_slot_tty_waiter]
    refine (tty other registered).resolve_right ?_
    rintro rfl
    rw [awake] at waits
    cases waits

theorem wake_tty_waiter_stirred (kernel : Kernel) :
    KernelStirred kernel kernel.wakeTtyWaiter := by
  unfold Kernel.wakeTtyWaiter
  split
  · rename_i slot waiting
    refine take_and_wake_stirred rfl rfl rfl rfl (fun _ _ => .inl) (fun _ _ => id) ?_
    intro other registered
    exact .inr (Option.some.inj (registered.symm.trans waiting))
  · exact KernelStirred.refl kernel

theorem wake_pipe_waiter_stirred (kernel : Kernel) (idx : Nat) :
    KernelStirred kernel (kernel.wakePipeWaiter idx) := by
  unfold Kernel.wakePipeWaiter
  split
  · rename_i bound
    split
    · rename_i slot waiting
      refine take_and_wake_stirred rfl rfl rfl rfl ?_ ?_ (fun _ => .inl)
      · intro index other registered
        by_cases same : index = ⟨idx, bound⟩
        · subst same
          exact .inr (Option.some.inj (registered.symm.trans waiting))
        · simp only [Function.update_of_ne same]
          exact .inl registered
      · intro index other registered
        by_cases same : index = ⟨idx, bound⟩
        · subst same
          simp at registered
        · simpa only [Function.update_of_ne same] using registered
    · exact KernelStirred.refl kernel
  · exact KernelStirred.refl kernel

theorem wake_closed_pipe_reader_stirred (kernel : Kernel) (index : PipeIndex) :
    KernelStirred kernel (kernel.wakeClosedPipeReader index) := by
  unfold Kernel.wakeClosedPipeReader
  split_ifs
  · exact KernelStirred.refl kernel
  · exact wake_pipe_waiter_stirred kernel index.val

theorem wake_closed_pipe_readers_stirred (kernel : Kernel) :
    KernelStirred kernel kernel.wakeClosedPipeReaders :=
  KernelStirred.foldl _ wake_closed_pipe_reader_stirred _ kernel

theorem raise_signal_stirred (task : Task) (sig : Nat) :
    TaskStirred task (task.raiseSignal sig) :=
  ⟨rfl, rfl, rfl, rfl, rfl, Iff.rfl, id, fun _ => rfl⟩

theorem signal_parent_stirred (kernel : Kernel) (parentPid sig : Nat) :
    KernelStirred kernel (kernel.signalParent parentPid sig) := by
  unfold Kernel.signalParent
  split
  · split
    · rename_i task present
      exact set_task_stirred present (raise_signal_stirred task sig)
    · exact KernelStirred.refl kernel
  · exact KernelStirred.refl kernel

theorem raise_and_wake_stirred (kernel : Kernel) (slot : Slot) (sig : Nat) :
    KernelStirred kernel (kernel.raiseAndWake slot sig) := by
  unfold Kernel.raiseAndWake
  split
  · rename_i task present
    exact set_task_stirred present ((raise_signal_stirred task sig).trans (wake_stirred _))
  · exact KernelStirred.refl kernel

theorem raise_signal_to_pid_stirred (kernel : Kernel) (targetPid sig : Nat) :
    KernelStirred kernel (kernel.raiseSignalToPid targetPid sig).1 := by
  unfold Kernel.raiseSignalToPid
  split
  · exact raise_and_wake_stirred kernel _ sig
  · exact KernelStirred.refl kernel

theorem sys_raise_stirred (kernel : Kernel) (targetPid sig : Nat) :
    KernelStirred kernel (sysRaise kernel targetPid sig) := by
  unfold sysRaise
  split_ifs
  · exact KernelStirred.refl kernel
  · exact raise_signal_to_pid_stirred kernel targetPid sig

theorem kill_task_stirred (kernel : Kernel) (slot : Slot) :
    KernelStirred kernel (kernel.killTask slot).1 := by
  unfold Kernel.killTask
  split_ifs
  · exact KernelStirred.refl kernel
  · exact raise_and_wake_stirred kernel slot sigkill
  · exact KernelStirred.refl kernel

theorem take_first_keeps (task : Task) (signals : List Nat) :
    ∃ pending, (task.takeFirst signals).2 = { task with pendingSignals := pending } := by
  induction signals with
  | nil => exact ⟨task.pendingSignals, rfl⟩
  | cons sig rest ih =>
      simp only [Task.takeFirst]
      split_ifs
      · exact ⟨_, rfl⟩
      · exact ih

theorem take_signal_keeps (task : Task) (sig : Nat) :
    ∃ pending, (task.takeSignal sig).2 = { task with pendingSignals := pending } := by
  unfold Task.takeSignal
  split_ifs
  · exact ⟨_, rfl⟩
  · exact ⟨task.pendingSignals, rfl⟩

theorem take_first_taken (task : Task) (signals : List Nat) :
    (task.takeFirst signals).1 = signals.any task.hasSignal := by
  induction signals with
  | nil => rfl
  | cons sig rest ih =>
      simp only [Task.takeFirst, List.any_cons]
      split_ifs with pending
      · simp [pending]
      · simp [pending, ih]

/-- A lethal signal is pending for a task that has not terminated. -/
def isDoomed (task : Task) : Bool :=
  task.state != .zombie && lethalSignals.any task.hasSignal

theorem deliver_slot_cases (kernel : Kernel) (slot : Slot) :
    (∃ task pending, kernel.tasks slot = some task ∧ isDoomed task = true ∧
      kernel.deliverSlot slot =
        ({ kernel with pool := FdTable.closeAll kernel.pool task.fdTable }.setTask slot
          { task with
            pendingSignals := pending
            fdTable := fun _ => .empty
            exitCode := 1
            state := .zombie }).wakeChildWaiters task.pid task.ppid) ∨
    ((kernel.tasks slot).all (fun task => !isDoomed task) = true ∧
      KernelStirred kernel (kernel.deliverSlot slot)) := by
  unfold Kernel.deliverSlot
  split
  · rename_i empty
    exact .inr ⟨by simp [empty], KernelStirred.refl kernel⟩
  · rename_i task present
    obtain ⟨left, leftEq⟩ := take_first_keeps task lethalSignals
    obtain ⟨right, rightEq⟩ := take_signal_keeps (task.takeFirst lethalSignals).2 sigchld
    dsimp only
    rw [take_first_taken]
    split_ifs with dead unsignalled lethal child
    · exact .inr ⟨by simp [present, isDoomed, dead], KernelStirred.refl kernel⟩
    · refine .inr ⟨?_, KernelStirred.refl kernel⟩
      simp [present, isDoomed, Task.hasSignal, unsignalled]
    · refine .inl ⟨task, left, present, by simp [isDoomed, dead, lethal], ?_⟩
      rw [leftEq]
      rfl
    · refine .inr ⟨by simp [present, isDoomed, lethal], set_task_stirred present ?_⟩
      rw [rightEq, leftEq]
      exact ⟨rfl, rfl, rfl, rfl, rfl, by simp [dead], by simp, by simp⟩
    · refine .inr ⟨by simp [present, isDoomed, lethal], set_task_stirred present ?_⟩
      rw [rightEq, leftEq]
      exact ⟨rfl, rfl, rfl, rfl, rfl, Iff.rfl, id, fun _ => rfl⟩

theorem deliver_slot_evolves (kernel : Kernel) (slot : Slot) :
    KernelEvolves kernel (kernel.deliverSlot slot) := by
  rcases deliver_slot_cases kernel slot with ⟨task, pending, present, doomed, killed⟩ | ⟨-, stirred⟩
  · rw [killed]
    have alive : task.state ≠ .zombie := by
      simp only [isDoomed, Bool.and_eq_true, bne_iff_ne] at doomed
      exact doomed.1
    refine KernelEvolves.trans ?_ (wake_child_waiters_stirred _ _ _).evolves
    exact pool_set_task_evolves _ present
      ⟨rfl, rfl, fun zombie => absurd zombie alive, fun zombie => absurd zombie alive, by simp⟩ rfl
  · exact stirred.evolves

theorem deliver_all_signals_evolves (kernel : Kernel) :
    KernelEvolves kernel kernel.deliverAllSignals :=
  KernelEvolves.foldl _ deliver_slot_evolves _ kernel

theorem pool_spares (kernel : Kernel) (pool : Pool) :
    KernelSpares kernel { kernel with pool := pool } :=
  ⟨pool_evolves kernel pool, fun _ task present dead => ⟨task, present, dead⟩⟩

theorem fd_table_spares {kernel : Kernel} {slot : Slot} {task : Task}
    (present : kernel.tasks slot = some task) (table : FdTable) :
    KernelSpares kernel (kernel.setTask slot { task with fdTable := table }) where
  toKernelEvolves := set_task_evolves present
    ⟨rfl, rfl, id, fun _ => rfl, fun waiting => ⟨waiting, rfl⟩⟩ rfl
  spares := by
    intro other found there dead
    by_cases same : other = slot
    · subst same
      rw [set_task_same] at there
      cases there
      exact ⟨task, present, dead⟩
    · rw [set_task_other kernel _ same] at there
      exact ⟨found, there, dead⟩

theorem pool_fd_table_spares {kernel : Kernel} {slot : Slot} {task : Task} (pool : Pool)
    (present : kernel.tasks slot = some task) (table : FdTable) :
    KernelSpares kernel
      ({ kernel with pool := pool }.setTask slot { task with fdTable := table }) :=
  (pool_spares kernel pool).trans
    (@fd_table_spares { kernel with pool := pool } slot task present table)

theorem current_fd_alloc_spares (kernel : Kernel) (entry : FdEntry) :
    KernelSpares kernel (currentFdAlloc kernel entry).1 := by
  unfold currentFdAlloc
  split
  · exact KernelSpares.refl kernel
  · rename_i task present
    split
    · exact KernelSpares.refl kernel
    · exact fd_table_spares present _

theorem current_fd_close_spares (kernel : Kernel) (fd : Nat) :
    KernelSpares kernel (currentFdClose kernel fd).1 := by
  unfold currentFdClose
  split
  · exact KernelSpares.refl kernel
  · rename_i task present
    split
    · exact KernelSpares.refl kernel
    · exact fd_table_spares present _

theorem sys_dup_spares (kernel : Kernel) (fd : Nat) :
    KernelSpares kernel (sysDup kernel fd).1 := by
  unfold sysDup currentFdDup
  split
  · exact KernelSpares.refl kernel
  · exact current_fd_alloc_spares kernel _

theorem sys_dup2_spares (kernel : Kernel) (oldFd newFd : Nat) :
    KernelSpares kernel (sysDup2 kernel oldFd newFd).1 := by
  unfold sysDup2 currentFdDup2
  split_ifs
  · exact KernelSpares.refl kernel
  · split
    · exact KernelSpares.refl kernel
    · rename_i task present
      split
      · exact KernelSpares.refl kernel
      · split
        · exact KernelSpares.refl kernel
        · exact pool_fd_table_spares _ present _

theorem sys_fcntl_spares (kernel : Kernel) (fd cmd : Nat) :
    KernelSpares kernel (sysFcntl kernel fd cmd).1 := by
  unfold sysFcntl
  split
  · exact KernelSpares.refl kernel
  · split
    · exact sys_dup_spares kernel fd
    all_goals exact KernelSpares.refl kernel

theorem two_fds_spare (kernel : Kernel) (pool : Pool) (first second : FdEntry) :
    KernelSpares kernel
      (currentFdAlloc (currentFdAlloc { kernel with pool := pool } first).1 second).1 :=
  ((pool_spares kernel pool).trans (current_fd_alloc_spares _ first)).trans
    (current_fd_alloc_spares _ second)

theorem sys_pipe_spares (kernel : Kernel) (fdsPtr : Nat) :
    KernelSpares kernel (sysPipe kernel fdsPtr).1 := by
  unfold sysPipe
  split_ifs
  · exact KernelSpares.refl kernel
  · split
    · exact KernelSpares.refl kernel
    · dsimp only
      split
      · exact two_fds_spare kernel _ _ _
      · exact (two_fds_spare kernel _ _ _).trans (pool_spares _ _)

theorem sys_socketpair_spares (kernel : Kernel) (svPtr : Nat) :
    KernelSpares kernel (sysSocketpair kernel svPtr).1 := by
  unfold sysSocketpair
  split_ifs
  · exact KernelSpares.refl kernel
  · split
    · exact KernelSpares.refl kernel
    · split
      · exact pool_spares kernel _
      · dsimp only
        split
        · exact two_fds_spare kernel _ _ _
        · exact (two_fds_spare kernel _ _ _).trans (pool_spares _ _)

theorem wake_if_write_closed_stirred (kernel : Kernel) (idx : Nat) :
    KernelStirred kernel (wakeIfWriteClosed kernel idx) := by
  unfold wakeIfWriteClosed
  split_ifs
  · exact KernelStirred.refl kernel
  · exact wake_pipe_waiter_stirred kernel idx

theorem sys_close_spares (kernel : Kernel) (fd : Nat) :
    KernelSpares kernel (sysClose kernel fd).1 := by
  have closes := current_fd_close_spares kernel fd
  unfold sysClose
  split
  · exact KernelSpares.refl kernel
  · rename_i closed entry result
    rw [result] at closes
    have released (pool : Pool) : KernelSpares kernel { closed with pool := pool } :=
      closes.trans (pool_spares closed pool)
    split
    · exact released _
    · exact (released _).trans (wake_if_write_closed_stirred _ _).spares
    · exact (released _).trans (wake_if_write_closed_stirred _ _).spares
    · exact closes

theorem update_pipe_counts (pool : Pool) (index : PipeIndex) (pipe : Pipe) (other : PipeIndex) :
    sameCounts (pool other) (Function.update pool index { pool index with pipe := pipe } other) := by
  by_cases same : other = index
  · subst same
    simp [sameCounts]
  · simp [sameCounts, same]

theorem pipe_read_counts (pool : Pool) (idx length : Nat) (index : PipeIndex) :
    sameCounts (pool index) ((pipeRead pool idx length).1 index) := by
  unfold pipeRead
  split
  · dsimp only
    split_ifs
    · exact update_pipe_counts pool _ _ index
    · exact ⟨rfl, rfl, rfl⟩
  · exact ⟨rfl, rfl, rfl⟩

theorem pipe_write_counts (pool : Pool) (idx : Nat) (data : List UInt8) (index : PipeIndex) :
    sameCounts (pool index) ((pipeWrite pool idx data).1 index) := by
  unfold pipeWrite
  split
  · dsimp only
    split_ifs
    · exact update_pipe_counts pool _ _ index
    · exact ⟨rfl, rfl, rfl⟩
  · exact ⟨rfl, rfl, rfl⟩

theorem pool_stirred {kernel : Kernel} {pool : Pool}
    (counts : ∀ index, sameCounts (kernel.pool index) (pool index)) :
    KernelStirred kernel { kernel with pool := pool } :=
  ⟨fun _ => option_rel_refl TaskStirred.refl _, counts, rfl, rfl,
    WaitersKept.of_same (fun _ waits => waits) rfl rfl⟩

theorem sys_read_pipe_stirred (kernel : Kernel) (fd length : Nat) :
    KernelStirred kernel (sysReadPipe kernel fd length).1 := by
  unfold sysReadPipe
  split_ifs
  · exact KernelStirred.refl kernel
  · split
    · exact KernelStirred.refl kernel
    · dsimp only
      split_ifs <;> exact pool_stirred (pipe_read_counts _ _ _)

theorem sys_write_pipe_stirred (kernel : Kernel) (fd : Nat) (data : List UInt8) :
    KernelStirred kernel (sysWritePipe kernel fd data).1 := by
  unfold sysWritePipe
  split_ifs
  · exact KernelStirred.refl kernel
  · split
    · exact KernelStirred.refl kernel
    · dsimp only
      split_ifs
      · exact KernelStirred.refl kernel
      · exact (pool_stirred (pipe_write_counts _ _ _)).trans (wake_pipe_waiter_stirred _ _)
      · exact pool_stirred (pipe_write_counts _ _ _)

theorem modify_current_other (kernel : Kernel) (change : Task → Task) {slot : Slot}
    (different : slot ≠ kernel.current) :
    (kernel.modifyCurrent change).tasks slot = kernel.tasks slot := by
  unfold Kernel.modifyCurrent
  split
  · exact set_task_other kernel _ different
  · rfl

theorem modify_current_current (kernel : Kernel) (change : Task → Task) :
    (kernel.modifyCurrent change).current = kernel.current := by
  unfold Kernel.modifyCurrent
  split <;> rfl

theorem modify_current_pool (kernel : Kernel) (change : Task → Task) :
    (kernel.modifyCurrent change).pool = kernel.pool := by
  unfold Kernel.modifyCurrent
  split <;> rfl

theorem modify_current_waiters {kernel : Kernel} {change : Task → Task}
    (state : ∀ task, (change task).state = task.state) :
    WaitersKept kernel (kernel.modifyCurrent change) := by
  unfold Kernel.modifyCurrent
  split
  · rename_i task present
    refine WaitersKept.of_same (set_task_blocked present ?_) rfl rfl
    rw [state task]
    exact id
  · exact WaitersKept.refl kernel

end Ferrugem.KernelEvolution
