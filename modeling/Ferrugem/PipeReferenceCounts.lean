import Ferrugem.KernelOperations
import Ferrugem.PipeCountInvariant

/-!
# Exact reference counts

Ten operations in four modules create, copy or drop descriptors, and each has
to adjust the counts of the pipes they denote. Creation, closing, termination
and `fork` do; `dup`, `dup2` and `F_DUPFD` copy a pipe descriptor without
counting it, and the failure paths of `sys_pipe` and `sys_socketpair` leave a
descriptor or an end behind. In runs without these the counts are exact in
every state, and stay far below the limit at which `fork` stops counting.
-/

namespace Ferrugem.PipeReferenceCounts

open Ferrugem.PipePoolModel Ferrugem.ProcessModel Ferrugem.SchedulerModel
open Ferrugem.DescriptorSyscalls Ferrugem.KernelMachine Ferrugem.KernelEvolution
open Ferrugem.TaskLifecycle Ferrugem.KernelOperations Ferrugem.PipeEnds
open Ferrugem.PipeCountInvariant

set_option autoImplicit false

def freeFds (table : FdTable) : Nat :=
  (((List.finRange maxFds).drop 3).filter fun fd => table fd == .empty).length

theorem free_fd_empty {table : FdTable} {fd : Fd} (found : FdTable.freeFd table = some fd) :
    table fd = .empty := by
  have matched := List.find?_some found
  simpa using matched

theorem free_fds_of_none {table : FdTable} (full : FdTable.freeFd table = none) :
    freeFds table = 0 := by
  unfold FdTable.freeFd at full
  rw [List.find?_eq_none] at full
  unfold freeFds
  rw [List.length_eq_zero_iff, List.filter_eq_nil_iff]
  exact full

theorem free_fds_pos {table : FdTable} {fd : Fd} (found : FdTable.freeFd table = some fd) :
    0 < freeFds table := by
  have empty := free_fd_empty found
  unfold FdTable.freeFd at found
  have member := List.mem_of_find?_eq_some found
  apply List.length_pos_of_mem
  exact List.mem_filter.mpr ⟨member, by simp [empty]⟩

theorem second_free_fd {table : FdTable} {fd : Fd} {entry : FdEntry}
    (enough : 2 ≤ freeFds table) (filled : entry ≠ .empty) :
    ∃ other, FdTable.freeFd (Function.update table fd entry) = some other ∧ other ≠ fd ∧
      table other = .empty := by
  have another : ∃ other ∈ (List.finRange maxFds).drop 3, other ≠ fd ∧ table other = .empty := by
    by_contra alone
    have only : ∀ other ∈ ((List.finRange maxFds).drop 3).filter fun fd => table fd == .empty,
        other = fd := by
      intro other member
      rw [List.mem_filter] at member
      by_contra different
      exact alone ⟨other, member.1, different, by simpa using member.2⟩
    have distinct : (((List.finRange maxFds).drop 3).filter fun fd =>
        table fd == .empty).Nodup :=
      (List.Pairwise.drop (List.nodup_finRange maxFds)).filter _
    have short := distinct.length_le_of_subset
      (fun other member => List.mem_singleton.mpr (only other member))
    simp only [List.length_singleton] at short
    unfold freeFds at enough
    omega
  obtain ⟨other, member, different, empty⟩ := another
  cases found : FdTable.freeFd (Function.update table fd entry) with
  | none =>
      unfold FdTable.freeFd at found
      rw [List.find?_eq_none] at found
      have taken := found other member
      simp [different, empty] at taken
  | some next =>
      have free := free_fd_empty found
      have apart : next ≠ fd := by
        rintro rfl
        rw [Function.update_self] at free
        exact filled free
      exact ⟨next, rfl, apart, by rwa [Function.update_of_ne apart] at free⟩

theorem current_fd_alloc_full {kernel : Kernel} (entry : FdEntry)
    (full : ∀ task ∈ kernel.currentTask, FdTable.freeFd task.fdTable = none) :
    currentFdAlloc kernel entry = (kernel, none) := by
  unfold currentFdAlloc
  cases present : kernel.currentTask with
  | none => rfl
  | some task => simp [FdTable.alloc, full task present]

theorem current_fd_alloc_free {kernel : Kernel} {task : Task} {fd : Fd} (entry : FdEntry)
    (present : kernel.currentTask = some task) (free : FdTable.freeFd task.fdTable = some fd) :
    currentFdAlloc kernel entry = (kernel.setTask kernel.current
      { task with fdTable := Function.update task.fdTable fd entry }, some fd) := by
  unfold currentFdAlloc
  simp [present, FdTable.alloc, free]

theorem two_fds_alloc {kernel : Kernel} {task : Task} {fd other : Fd} {first second : FdEntry}
    (present : kernel.currentTask = some task) (free : FdTable.freeFd task.fdTable = some fd)
    (next : FdTable.freeFd (Function.update task.fdTable fd first) = some other) :
    currentFdAlloc (currentFdAlloc kernel first).1 second =
      (kernel.setTask kernel.current
        { task with
          fdTable := Function.update (Function.update task.fdTable fd first) other second },
        some other) := by
  rw [current_fd_alloc_free first present free]
  have opened : (kernel.setTask kernel.current
      { task with fdTable := Function.update task.fdTable fd first }).currentTask =
        some { task with fdTable := Function.update task.fdTable fd first } := by
    unfold Kernel.currentTask
    exact set_task_same kernel kernel.current _
  rw [current_fd_alloc_free second opened next]
  simp [Kernel.setTask]

/-- Two free descriptors of a running task are filled with the ends of new
pipes. -/
theorem counts_kept_open {kernel : Kernel} {pool : Pool} {slot : Slot} {task : Task}
    {fd other : Fd} {first second : FdEntry} (kept : CountsKept kernel)
    (present : kernel.tasks slot = some task) (alive : task.state ≠ .zombie)
    (free : task.fdTable fd = .empty) (different : other ≠ fd) (next : task.fdTable other = .empty)
    (counts : ∀ side index, countOf (pool index) side = countOf (kernel.pool index) side +
      endsOf side first index + endsOf side second index)
    (fresh : ∀ side index, endsOf side first index + endsOf side second index ≠ 0 →
      countOf (kernel.pool index) side = 0)
    (once : ∀ side index, endsOf side first index + endsOf side second index ≤ 1)
    (tight : ∀ index, isTight (pool index)) :
    CountsKept ({ kernel with pool := pool }.setTask slot
      { task with
        fdTable := Function.update (Function.update task.fdTable fd first) other second }) := by
  have grown (side : End) (index : PipeIndex) :
      tableEnds side (Function.update (Function.update task.fdTable fd first) other second) index =
        tableEnds side task.fdTable index + endsOf side first index +
          endsOf side second index := by
    have one := table_ends_update side task.fdTable fd first index
    have two := table_ends_update side (Function.update task.fdTable fd first) other second index
    rw [free, ends_of_empty] at one
    rw [Function.update_of_ne different, next, ends_of_empty] at two
    omega
  refine counts_kept_table kept present ?_ tight ?_ (fun dead => absurd dead alive)
  · intro side index
    rw [grown, counts]
    omega
  · intro side index
    have limit := once side index
    have held := table_le_count kept present side index
    have bound := kept.single slot task present side index
    rw [grown]
    by_cases new : endsOf side first index + endsOf side second index = 0
    · omega
    · have unused := fresh side index new
      omega

theorem counts_kept_close_pipe {kernel : Kernel} {pool : Pool} {idx : PipeIndex}
    (kept : CountsKept kernel) (allocated : allocPipe kernel.pool = some (idx, pool)) :
    CountsKept (closePipe { kernel with pool := pool } idx.val) := by
  apply counts_kept_pool kept
  · intro side index
    have counts := (alloc_pipe_counts allocated side index).2.2
    have first := close_end_count .reading side pool idx.val index
    have second := close_end_count .writing side (closePipeRead pool idx.val) idx.val index
    simp only [closeEnd] at first second
    rw [second, first, counts]
    by_cases same : index = idx
    · subst same
      cases side <;> simp
    · have elsewhere : index.val ≠ idx.val := fun equal => same (Fin.ext equal)
      simp [same, elsewhere]
  · intro index
    have opened := alloc_pipe_tight allocated (kept.tight index)
    exact @close_end_tight .writing _ idx.val index
      (@close_end_tight .reading pool idx.val index opened)

/-- `sys_pipe` counts right unless exactly one descriptor is free, or the
caller has terminated and opens descriptors again. -/
def pipeCounts (kernel : Kernel) (fdsPtr : Nat) : Prop :=
  fdsPtr ≠ 0 → (allocPipe kernel.pool).isSome = true → ∀ task ∈ kernel.currentTask,
    freeFds task.fdTable = 0 ∨ 2 ≤ freeFds task.fdTable ∧ task.state ≠ .zombie

theorem counts_kept_sys_pipe {kernel : Kernel} {fdsPtr : Nat} (kept : CountsKept kernel)
    (counted : pipeCounts kernel fdsPtr) : CountsKept (sysPipe kernel fdsPtr).1 := by
  unfold sysPipe
  split_ifs with null
  · exact kept
  · split
    · exact kept
    · rename_i idx pool allocated
      dsimp only
      have room := counted null (by simp [allocated])
      by_cases full : ∀ task ∈ kernel.currentTask, FdTable.freeFd task.fdTable = none
      · have failed (entry : FdEntry) : currentFdAlloc { kernel with pool := pool } entry =
            ({ kernel with pool := pool }, none) := current_fd_alloc_full entry full
        simp only [failed]
        exact counts_kept_close_pipe kept allocated
      · simp only [not_forall] at full
        obtain ⟨task, present, some⟩ := full
        obtain ⟨fd, free⟩ := Option.ne_none_iff_exists'.mp some
        have empty := free_fd_empty free
        obtain ⟨enough, alive⟩ : 2 ≤ freeFds task.fdTable ∧ task.state ≠ .zombie := by
          rcases room task present with none | enough
          · have positive := free_fds_pos free
            omega
          · exact enough
        obtain ⟨other, next, different, unused⟩ := @second_free_fd task.fdTable fd
          (.pipeRead idx.val) enough (by simp)
        have opened : ({ kernel with pool := pool } : Kernel).currentTask = Option.some task :=
          present
        have both := @two_fds_alloc { kernel with pool := pool } task fd other
          (.pipeRead idx.val) (.pipeWrite idx.val) opened free next
        have one := current_fd_alloc_free (.pipeRead idx.val) opened free
        rw [both, one]
        dsimp only
        apply counts_kept_open kept present alive empty different unused
        · intro side index
          rw [(alloc_pipe_counts allocated side index).2.2]
          cases side <;>
            simp [endsOf, End.pipe, readPipe, writePipe, Fin.ext_iff, eq_comm]
        · intro side index denoted
          have free := (alloc_pipe_counts allocated side index).1
          have same : index = idx := by
            by_contra apart
            have elsewhere : idx.val ≠ index.val := fun equal => apart (Fin.ext equal.symm)
            cases side <;> simp [endsOf, End.pipe, readPipe, writePipe, elsewhere] at denoted
          rw [same]
          exact count_free free side
        · intro side index
          cases side <;> simp only [endsOf, End.pipe, readPipe, writePipe] <;> split_ifs <;>
            simp_all
        · exact fun index => alloc_pipe_tight allocated (kept.tight index)

/-- `sys_socketpair` counts right unless it finds two pipes but no two free
descriptors, or the caller has terminated. -/
def socketpairCounts (kernel : Kernel) (svPtr : Nat) : Prop :=
  svPtr ≠ 0 → ((allocPipe kernel.pool).bind fun opened => allocPipe opened.2).isSome = true →
    ∃ task ∈ kernel.currentTask, 2 ≤ freeFds task.fdTable ∧ task.state ≠ .zombie

theorem counts_kept_sys_socketpair {kernel : Kernel} {svPtr : Nat} (kept : CountsKept kernel)
    (counted : socketpairCounts kernel svPtr) : CountsKept (sysSocketpair kernel svPtr).1 := by
  unfold sysSocketpair
  split_ifs with null
  · exact kept
  · split
    · exact kept
    · rename_i a poolA allocatedA
      split
      · exact counts_kept_close_pipe kept allocatedA
      · rename_i b poolB allocatedB
        obtain ⟨task, present, enough, alive⟩ := counted null (by simp [allocatedA, allocatedB])
        obtain ⟨fd, free⟩ := Option.ne_none_iff_exists'.mp (show FdTable.freeFd task.fdTable ≠ none
          from fun full => by have none := free_fds_of_none full; omega)
        obtain ⟨other, next, different, unused⟩ := @second_free_fd task.fdTable fd
          (.socketPair a.val b.val) enough (by simp)
        have opened : ({ kernel with pool := poolB } : Kernel).currentTask = some task := present
        have both := @two_fds_alloc { kernel with pool := poolB } task fd other
          (.socketPair a.val b.val) (.socketPair b.val a.val) opened free next
        have one := current_fd_alloc_free (.socketPair a.val b.val) opened free
        have apart : a ≠ b :=
          alloc_pipe_live allocatedB (alloc_pipe_counts allocatedA .reading a).2.1
        have distinct : a.val ≠ b.val := fun same => apart (Fin.ext same)
        dsimp only
        rw [both, one]
        dsimp only
        have ends (side : End) (index : PipeIndex) :
            endsOf side (.socketPair a.val b.val) index +
              endsOf side (.socketPair b.val a.val) index =
                (if index = a then 1 else 0) + (if index = b then 1 else 0) := by
          cases side with
          | reading =>
              simp only [endsOf, End.pipe, readPipe, Option.some.injEq, Fin.ext_iff, eq_comm]
          | writing =>
              simp only [endsOf, End.pipe, writePipe, Option.some.injEq, Fin.ext_iff, eq_comm]
              omega
        have countsA (side : End) (index : PipeIndex) :=
          (alloc_pipe_counts allocatedA side index).2.2
        have countsB (side : End) (index : PipeIndex) :=
          (alloc_pipe_counts allocatedB side index).2.2
        have freeA := (alloc_pipe_counts allocatedA .reading a).1
        have freeB : (kernel.pool b).inUse = false := by
          rw [← alloc_pipe_other allocatedA apart.symm]
          exact (alloc_pipe_counts allocatedB .reading b).1
        apply counts_kept_open kept present alive (free_fd_empty free) different unused
        · intro side index
          have sum := ends side index
          rw [countsB, countsA]
          omega
        · intro side index denoted
          rw [ends] at denoted
          by_cases isA : index = a
          · rw [isA]
            exact count_free freeA side
          · by_cases isB : index = b
            · rw [isB]
              exact count_free freeB side
            · simp [isA, isB] at denoted
        · intro side index
          rw [ends]
          split_ifs with isA isB
          · exact absurd (isA.symm.trans isB) apart
          all_goals omega
        · intro index
          exact alloc_pipe_tight allocatedB (alloc_pipe_tight allocatedA (kept.tight index))

def isPipeEnd (entry : FdEntry) : Bool := (readPipe entry).isSome || (writePipe entry).isSome

theorem ends_of_plain {entry : FdEntry} (plain : isPipeEnd entry = false) (side : End)
    (index : PipeIndex) : endsOf side entry index = 0 := by
  cases entry with
  | pipeRead idx => cases plain
  | pipeWrite idx => cases plain
  | socketPair readIdx writeIdx => cases plain
  | _ =>
      cases side with
      | reading => rfl
      | writing => rfl

/-- `dup` copies no pipe descriptor, or finds no free descriptor for it. -/
def dupCounts (kernel : Kernel) (fd : Nat) : Prop :=
  ∀ entry ∈ currentFdGet kernel fd, isPipeEnd entry = true →
    ∀ task ∈ kernel.currentTask, FdTable.freeFd task.fdTable = none

theorem counts_kept_sys_dup {kernel : Kernel} {fd : Nat} (kept : CountsKept kernel)
    (counted : dupCounts kernel fd) : CountsKept (sysDup kernel fd).1 := by
  unfold sysDup currentFdDup
  split
  · exact kept
  · rename_i entry found
    dsimp only
    by_cases full : ∀ task ∈ kernel.currentTask, FdTable.freeFd task.fdTable = none
    · rw [current_fd_alloc_full entry full]
      exact kept
    · have plain : isPipeEnd entry = false := by
        by_contra pipe
        exact full (counted entry found (by simpa using pipe))
      simp only [not_forall] at full
      obtain ⟨task, present, some⟩ := full
      obtain ⟨free, found⟩ := Option.ne_none_iff_exists'.mp some
      rw [current_fd_alloc_free entry present found]
      exact counts_kept_fill kept present (free_fd_empty found) (ends_of_plain plain)

/-- `dup2` onto another descriptor copies no pipe descriptor. -/
def dup2Counts (kernel : Kernel) (oldFd newFd : Nat) : Prop :=
  oldFd ≠ newFd → newFd < maxFds →
    ∀ entry ∈ currentFdGet kernel oldFd, isPipeEnd entry = false

theorem counts_kept_sys_dup2 {kernel : Kernel} {oldFd newFd : Nat} (kept : CountsKept kernel)
    (counted : dup2Counts kernel oldFd newFd) : CountsKept (sysDup2 kernel oldFd newFd).1 := by
  unfold sysDup2 currentFdDup2
  split_ifs with same
  · exact kept
  · cases present : kernel.currentTask with
    | none => exact kept
    | some task =>
        dsimp only
        cases found : FdTable.get task.fdTable oldFd with
        | none => exact kept
        | some entry =>
            by_cases bound : newFd < maxFds
            · have plain := counted same bound entry (by simp [currentFdGet, present, found])
              simp only [FdTable.allocAt, bound, dite_true]
              exact counts_kept_replace ⟨newFd, bound⟩ kept present (ends_of_plain plain)
            · simp only [FdTable.allocAt, bound, dite_false]
              exact kept

theorem counts_kept_sys_close {kernel : Kernel} {fd : Nat} (kept : CountsKept kernel) :
    CountsKept (sysClose kernel fd).1 := by
  unfold sysClose currentFdClose
  cases present : kernel.currentTask with
  | none => exact kept
  | some task =>
      dsimp only
      by_cases bound : fd < maxFds
      · have replaced := @counts_kept_replace kernel kernel.current task ⟨fd, bound⟩ .empty kept
          present ends_of_empty
        cases held : task.fdTable ⟨fd, bound⟩ <;> rw [held] at replaced <;>
          simp only [FdTable.close, bound, dite_true, held] <;>
          first
          | exact kept
          | exact replaced
          | exact counts_kept_stirred replaced (wake_if_write_closed_stirred _ _)
      · simp only [FdTable.close, bound, dite_false]
        exact kept

theorem counts_kept_sys_fcntl {kernel : Kernel} {fd cmd : Nat} (kept : CountsKept kernel)
    (counted : cmd = 0 → dupCounts kernel fd) : CountsKept (sysFcntl kernel fd cmd).1 := by
  unfold sysFcntl
  split
  · exact kept
  · split
    · exact counts_kept_sys_dup kept (counted rfl)
    all_goals exact kept

def callCounts (kernel : Kernel) : Action → Prop
  | .pipe fdsPtr => pipeCounts kernel fdsPtr
  | .socketpair svPtr => socketpairCounts kernel svPtr
  | .dup fd => dupCounts kernel fd
  | .dup2 oldFd newFd => dup2Counts kernel oldFd newFd
  | .fcntl fd cmd => cmd = 0 → dupCounts kernel fd
  | _ => True

theorem counts_kept_call {kernel after : Kernel} {action : Action} (kept : CountsKept kernel)
    (call : descriptorKernel kernel action = some after) (counted : callCounts kernel action) :
    CountsKept after := by
  cases action <;> simp only [descriptorKernel, Option.some.injEq, reduceCtorEq] at call <;>
    subst call
  · exact counts_kept_sys_pipe kept counted
  · exact counts_kept_sys_socketpair kept counted
  · exact counts_kept_sys_dup kept counted
  · exact counts_kept_sys_dup2 kept counted
  · exact counts_kept_sys_fcntl kept counted
  · exact counts_kept_sys_close kept

theorem counts_kept_blocked {kernel base : Kernel} {task : Task} {waitingForPid : Nat}
    (kept : CountsKept kernel) (present : kernel.currentTask = some task)
    (current : base.current = kernel.current) (tasks : base.tasks = kernel.tasks)
    (pool : base.pool = kernel.pool) : CountsKept (blockedKernel base task waitingForPid) := by
  have same := counts_kept_congr kept tasks pool
  apply @counts_kept_set base base.current task _ same
  · rw [tasks, current]
    exact present
  · rfl
  · intro dead
    cases dead

theorem counts_kept_schedule {machine : Machine} (kept : CountsKept machine.kernel) :
    CountsKept machine.schedule.1.kernel := by
  have shape := schedule_case machine
  generalize machine.schedule = result at shape ⊢
  cases shape with
  | stays => exact kept
  | halts => exact kept
  | @switched next prevTask nextTask picked different incoming outgoing =>
      rw [resume_kernel]
      have saved := @counts_kept_set machine.kernel machine.kernel.current prevTask
        { prevTask with fsBase := machine.fsBase } kept outgoing rfl id
      exact counts_kept_congr saved rfl rfl

theorem counts_kept_schedule_after (machine : Machine) {kernel : Kernel}
    (kept : CountsKept kernel) : CountsKept (machine.withKernel kernel).schedule.1.kernel :=
  counts_kept_schedule kept

theorem counts_kept_tick {machine : Machine} (kept : CountsKept machine.kernel) :
    CountsKept machine.tickCounted.kernel := by
  have counted := @counts_kept_congr machine.kernel { machine.kernel with
    tickCount := (machine.kernel.tickCount + 1) % 2 ^ 64 } kept rfl rfl
  unfold Machine.tickCounted
  dsimp only [Machine.withKernel]
  split_ifs
  · exact counts_kept_deliver_all counted
  · exact counted

/-- The operation copies no pipe descriptor through `dup`, `dup2` or
`F_DUPFD`, and opens pipes only for a running task with room for both ends. -/
def CountsDescriptors (machine : Machine) : Operation → Prop
  | .act action _ =>
      machine.halted = false → machine.returning = false → callCounts machine.kernel action
  | _ => True

instance decidablePipeCounts (kernel : Kernel) (fdsPtr : Nat) :
    Decidable (pipeCounts kernel fdsPtr) :=
  inferInstanceAs (Decidable (_ → _ → ∀ task ∈ kernel.currentTask, _))

instance decidableSocketpairCounts (kernel : Kernel) (svPtr : Nat) :
    Decidable (socketpairCounts kernel svPtr) :=
  inferInstanceAs (Decidable (_ → _ → ∃ task ∈ kernel.currentTask, _))

instance decidableDupCounts (kernel : Kernel) (fd : Nat) : Decidable (dupCounts kernel fd) :=
  inferInstanceAs (Decidable (∀ entry ∈ currentFdGet kernel fd, _ →
    ∀ task ∈ kernel.currentTask, _))

instance decidableDup2Counts (kernel : Kernel) (oldFd newFd : Nat) :
    Decidable (dup2Counts kernel oldFd newFd) :=
  inferInstanceAs (Decidable (_ → _ → ∀ entry ∈ currentFdGet kernel oldFd, _))

instance decidableCallCounts (kernel : Kernel) (action : Action) :
    Decidable (callCounts kernel action) :=
  match action with
  | .pipe fdsPtr => decidablePipeCounts kernel fdsPtr
  | .socketpair svPtr => decidableSocketpairCounts kernel svPtr
  | .dup fd => decidableDupCounts kernel fd
  | .dup2 oldFd newFd => decidableDup2Counts kernel oldFd newFd
  | .fcntl fd cmd => inferInstanceAs (Decidable (cmd = 0 → dupCounts kernel fd))
  | .tick | .ttyInput | .schedule | .exitMark _ | .wakeChildWaiters _ _ | .signalParent _
  | .wakeClosedPipeReaders | .waitpid _ _ | .blockOnTty _ | .blockOnPipe _ | .readPipe _ _
  | .writePipe _ _ | .raiseSignal _ _ | .killTask _ | .close _ | .spawnGather _ | .spawnChoose
  | .spawnInstall | .setFsBase _ | .writeFsBase _ | .execve _ _ _ _ | .userStack _
  | .syscallEntry | .sysret => isTrue trivial

instance decidableCountsDescriptors (machine : Machine) (operation : Operation) :
    Decidable (CountsDescriptors machine operation) :=
  match operation with
  | .act action _ => inferInstanceAs (Decidable (_ → _ → callCounts machine.kernel action))
  | .exitCurrent _ => isTrue trivial
  | .spawn _ => isTrue trivial

theorem counts_kept_perform {machine : Machine} {action : Action}
    (kept : CountsKept machine.kernel) (whole : isWhole action = true)
    (running : machine.halted = false) (going : machine.returning = false ∨ action = .sysret)
    (counted : CountsDescriptors machine (.act action whole)) :
    CountsKept (machine.perform action).1.kernel := by
  have shape := perform_case machine action
  generalize machine.perform action = result at shape ⊢
  cases shape with
  | quiet origin evolves =>
      cases origin with
      | stirs stirred => exact counts_kept_stirred kept stirred
      | calls call =>
          apply counts_kept_call kept call
          apply counted running
          rcases going with free | rfl
          · exact free
          · simp [descriptorKernel] at call
      | delivers enabled => exact counts_kept_tick kept
  | switches source evolves others =>
      apply counts_kept_schedule
      rcases source with ⟨rfl, rfl⟩ | ⟨rfl, rfl, enabled⟩
      · exact kept
      · exact counts_kept_tick kept
  | halts unchanged => exact kept
  | exits present => cases whole
  | reaps found present =>
      apply counts_kept_clear kept
      have matched := List.find?_some found
      rw [present] at matched
      simp only [Option.any_some, Kernel.isZombieChild, Bool.and_eq_true, beq_iff_eq] at matched
      simp [Kernel.vacant, present, matched.1.1]
  | blocksOnChild absent living present =>
      exact counts_kept_blocked kept present rfl rfl rfl
  | blocksOnTty present => exact counts_kept_blocked kept present rfl rfl rfl
  | blocksOnPipe must present => exact counts_kept_blocked kept present rfl rfl rfl
  | gathers unchosen => exact kept
  | chooses gathered vacant => exact kept
  | installs chosen => cases whole
  | setsFsBase => exact counts_kept_modify_current kept (fun _ => rfl) fun _ => rfl
  | writesFsBase => exact kept
  | execs inside =>
      simp only [Machine.execve, inside]
      exact counts_kept_modify_current kept (fun _ => rfl) fun _ => rfl
  | movesStack outside => exact kept
  | enters outside user => exact kept
  | returns inside =>
      rw [sysret_kernel]
      exact kept

theorem counts_kept_exit {kernel : Kernel} {code : BitVec 32} {task : Task}
    (kept : CountsKept kernel) (present : kernel.currentTask = some task) :
    CountsKept (exitKernel kernel code task) := by
  have marked : CountsKept (kernel.exitMark code) := by
    unfold Kernel.exitMark
    rw [present]
    exact counts_kept_terminate kept present rfl rfl
  unfold exitKernel
  apply counts_kept_stirred _ (wake_closed_pipe_readers_stirred _)
  apply counts_kept_stirred _ (signal_parent_stirred _ _ _)
  exact counts_kept_stirred marked (wake_child_waiters_stirred _ _ _)

theorem counts_kept_install {machine : Machine} {kind : Machine.SpawnKind} {slot : Slot}
    {request : Kernel.SpawnRequest} {userRsp : Nat} (kept : CountsKept machine.kernel)
    (gathered : machine.spawnRequest kind = some (request, userRsp))
    (vacant : machine.kernel.vacant slot = true) :
    CountsKept (machine.kernel.install slot request) := by
  cases kind with
  | kernelFn guardPhys stackTop =>
      simp only [Machine.spawnRequest, Option.some.injEq, Prod.mk.injEq] at gathered
      obtain ⟨rfl, rfl⟩ := gathered
      exact counts_kept_spawn kept vacant rfl rfl
  | user guardPhys stackTop pageTablePhys heapBrk rsp =>
      simp only [Machine.spawnRequest, Option.some.injEq, Prod.mk.injEq] at gathered
      obtain ⟨rfl, rfl⟩ := gathered
      exact counts_kept_spawn kept vacant rfl rfl
  | fork guardPhys stackTop pageTablePhys rsp =>
      cases present : machine.kernel.currentTask with
      | none => simp [Machine.spawnRequest, Kernel.spawnForkRequest, present] at gathered
      | some parent =>
          simp only [Machine.spawnRequest, Kernel.spawnForkRequest, present, Option.map_some,
            Option.some.injEq, Prod.mk.injEq] at gathered
          obtain ⟨rfl, rfl⟩ := gathered
          exact counts_kept_fork kept present vacant rfl rfl

theorem counts_kept_operation (machine : Machine) (operation : Operation)
    (kept : CountsKept machine.kernel) (counted : CountsDescriptors machine operation) :
    CountsKept (operationSystem.step machine operation).1.kernel := by
  have shape := operation_case machine operation
  generalize (operationSystem.step machine operation).1 = result at shape ⊢
  cases shape with
  | idle => exact kept
  | acts running going => exact counts_kept_perform kept _ running going counted
  | exits present => exact counts_kept_schedule_after machine (counts_kept_exit kept present)
  | schedules => exact counts_kept_schedule kept
  | fails => exact kept
  | spawns running going gathered vacant =>
      apply counts_kept_install kept gathered
      have matched := List.find?_some vacant
      exact matched

theorem counts_kept_boot : CountsKept boot := by
  have plain (side : End) (slot : Slot) (index : PipeIndex) :
      taskEnds side (boot.tasks slot) index = 0 := by
    simp only [boot]
    split_ifs
    · simp [taskEnds, Task.idle, Task.newKernel, table_ends_new]
    · rfl
  have idle {slot : Slot} {task : Task} (present : boot.tasks slot = some task) :
      task = Task.idle := by
    simp only [boot] at present
    split_ifs at present
    exact (Option.some.inj present).symm
  constructor
  · intro side index
    unfold kernelEnds
    rw [HeldReferences.total_eq_zero (taskEnds side) boot.tasks fun slot => plain side slot index]
    cases side <;> rfl
  · intro index live
    cases live
  · intro slot task present side index
    rw [idle present]
    exact (table_ends_new side index).le.trans (Nat.zero_le 1)
  · intro slot task present dead
    rw [idle present] at dead
    cases dead

/-- In every run whose operations count their descriptors the counts are exact
in every state. -/
theorem reference_counts_exact (operations : List Operation)
    (counted : operationSystem.StepsMeet CountsDescriptors operationSystem.init operations) :
    CountsExact (operationSystem.runFrom operationSystem.init operations).kernel :=
  counts_exact_of_kept (EventSystem.run_preserves (fun machine => CountsKept machine.kernel)
    counts_kept_operation counts_kept_boot counted)

def pipeOpened : List Operation :=
  [.spawn (.user 0x10000 0x19000 0x20000 0 0x7000), .act .schedule rfl,
    .act .syscallEntry rfl, .act (.pipe 0x6100) rfl, .act .sysret rfl, .act .syscallEntry rfl]

theorem run_miscounts (operations : List Operation) (index : PipeIndex)
    (miscounted : ((operationSystem.runFrom operationSystem.init operations).kernel.pool
      index).readCount ≠
        kernelEnds .reading (operationSystem.runFrom operationSystem.init operations).kernel
          index) :
    ¬∀ operations : List Operation,
      CountsExact (operationSystem.runFrom operationSystem.init operations).kernel :=
  fun exact => miscounted (exact operations index).1

/-- A copy of the read end is not counted. -/
theorem read_end_miscounted_after_dup :
    ¬∀ operations : List Operation,
      CountsExact (operationSystem.runFrom operationSystem.init operations).kernel :=
  run_miscounts (pipeOpened ++ [.act (.dup 3) rfl]) ⟨0, by decide⟩ (by decide +kernel)

/-- The pipe is shared with a child; the parent closes its write end and exits. -/
def pipeShared : List Operation :=
  pipeOpened ++ [.spawn (.fork 0x30000 0x39000 0x40000 0x7000), .act .sysret rfl,
    .act .syscallEntry rfl, .act (.close 4) rfl, .exitCurrent 0]

theorem reference_counts_exact_of_shared_pipe :
    operationSystem.StepsMeet CountsDescriptors operationSystem.init pipeShared ∧
      CountsExact (operationSystem.runFrom operationSystem.init pipeShared).kernel := by
  have counted : operationSystem.StepsMeet CountsDescriptors operationSystem.init pipeShared := by
    decide +kernel
  exact ⟨counted, reference_counts_exact pipeShared counted⟩

end Ferrugem.PipeReferenceCounts
