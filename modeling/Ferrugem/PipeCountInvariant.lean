import Ferrugem.KernelEvolution
import Ferrugem.PipeEnds

/-!
# Reference counts as an invariant

The counts of every pipe equal the numbers of descriptors that denote it, over
the tables of all tasks that have not terminated. `CountsKept` is this with
what keeps it inductive, and the lemmas below say how each kind of change to
one slot, one table or the pool keeps it.
-/

namespace Ferrugem.PipeCountInvariant

open Ferrugem.PipePoolModel Ferrugem.ProcessModel Ferrugem.SchedulerModel
open Ferrugem.DescriptorSyscalls Ferrugem.KernelEvolution Ferrugem.PipeEnds

set_option autoImplicit false

/-- The counts of every pipe are the numbers of descriptors of tasks that have
not terminated, and a pipe is in use exactly when one of them is left. -/
def CountsExact (kernel : Kernel) : Prop :=
  ∀ index,
    (kernel.pool index).readCount = kernelEnds .reading kernel index ∧
      (kernel.pool index).writeCount = kernelEnds .writing kernel index ∧
      ((kernel.pool index).inUse = true ↔
        kernelEnds .reading kernel index ≠ 0 ∨ kernelEnds .writing kernel index ≠ 0)

/-- Exactness with what keeps it inductive: a table denotes each end at most
once, and a terminated task denotes none. -/
structure CountsKept (kernel : Kernel) : Prop where
  exact : ∀ side index, countOf (kernel.pool index) side = kernelEnds side kernel index
  tight : ∀ index, isTight (kernel.pool index)
  single : ∀ slot task, kernel.tasks slot = some task →
    ∀ side index, tableEnds side task.fdTable index ≤ 1
  zombies : ∀ slot task, kernel.tasks slot = some task → task.state = .zombie →
    ∀ side index, tableEnds side task.fdTable index = 0

theorem counts_exact_of_kept {kernel : Kernel} (kept : CountsKept kernel) :
    CountsExact kernel := by
  intro index
  have reads := kept.exact .reading index
  have writes := kept.exact .writing index
  refine ⟨reads, writes, ?_⟩
  rw [← reads, ← writes]
  constructor
  · exact kept.tight index
  · rintro (counted | counted)
    · exact in_use_of_count counted
    · exact in_use_of_count counted

theorem table_ends_update (side : End) (table : FdTable) (fd : Fd) (entry : FdEntry)
    (index : PipeIndex) :
    tableEnds side (Function.update table fd entry) index + endsOf side (table fd) index =
      tableEnds side table index + endsOf side entry index :=
  HeldReferences.total_update (endsOf side) table fd entry index

theorem ends_le_table (side : End) (table : FdTable) (fd : Fd) (index : PipeIndex) :
    endsOf side (table fd) index ≤ tableEnds side table index :=
  HeldReferences.count_le_total (endsOf side) table fd index

theorem ends_of_empty (side : End) (index : PipeIndex) : endsOf side .empty index = 0 := by
  cases side <;> rfl

theorem table_ends_zero {side : End} {table : FdTable} {index : PipeIndex}
    (plain : ∀ fd, endsOf side (table fd) index = 0) : tableEnds side table index = 0 :=
  HeldReferences.total_eq_zero (endsOf side) table plain

theorem table_ends_empty (side : End) (index : PipeIndex) :
    tableEnds side (fun _ => .empty) index = 0 :=
  table_ends_zero fun _ => ends_of_empty side index

theorem table_ends_new (side : End) (index : PipeIndex) :
    tableEnds side FdTable.new index = 0 := by
  apply table_ends_zero
  intro fd
  unfold FdTable.new
  split_ifs <;> cases side <;> rfl

theorem task_ends_le_one {kernel : Kernel} (kept : CountsKept kernel) (side : End) (slot : Slot)
    (index : PipeIndex) : taskEnds side (kernel.tasks slot) index ≤ 1 := by
  cases present : kernel.tasks slot with
  | none => simp [taskEnds]
  | some task =>
      simp only [taskEnds]
      split_ifs
      · exact Nat.zero_le 1
      · exact kept.single slot task present side index

theorem table_le_count {kernel : Kernel} (kept : CountsKept kernel) {slot : Slot} {task : Task}
    (present : kernel.tasks slot = some task) (side : End) (index : PipeIndex) :
    tableEnds side task.fdTable index ≤ countOf (kernel.pool index) side := by
  by_cases dead : task.state = .zombie
  · rw [kept.zombies slot task present dead side index]
    exact Nat.zero_le _
  · have held := HeldReferences.count_le_total (taskEnds side) kernel.tasks slot index
    rw [present] at held
    simp only [taskEnds, dead, if_false] at held
    rw [kept.exact side index]
    exact held

theorem counts_kept_update {before after : Kernel} {slot : Slot} {held : Option Task}
    (kept : CountsKept before) (tasks : after.tasks = Function.update before.tasks slot held)
    (moved : ∀ side index, countOf (after.pool index) side +
      taskEnds side (before.tasks slot) index =
        countOf (before.pool index) side + taskEnds side held index)
    (tight : ∀ index, isTight (after.pool index))
    (single : ∀ task, held = some task → ∀ side index, tableEnds side task.fdTable index ≤ 1)
    (zombies : ∀ task, held = some task → task.state = .zombie →
      ∀ side index, tableEnds side task.fdTable index = 0) : CountsKept after := by
  have placed : ∀ other task, after.tasks other = some task →
      held = some task ∨ before.tasks other = some task := by
    intro other task present
    rw [tasks] at present
    by_cases same : other = slot
    · subst same
      exact .inl (by simpa using present)
    · exact .inr (by simpa only [Function.update_of_ne same] using present)
  constructor
  · intro side index
    have total := HeldReferences.total_update (taskEnds side) before.tasks slot held index
    have balance := moved side index
    have prior := kept.exact side index
    unfold kernelEnds at prior ⊢
    rw [tasks]
    omega
  · exact tight
  · intro other task present
    rcases placed other task present with here | elsewhere
    · exact single task here
    · exact kept.single other task elsewhere
  · intro other task present dead
    rcases placed other task present with here | elsewhere
    · exact zombies task here dead
    · exact kept.zombies other task elsewhere dead

theorem counts_kept_stirred {before after : Kernel} (kept : CountsKept before)
    (stirred : KernelStirred before after) : CountsKept after := by
  have counts (side : End) (index : PipeIndex) :
      countOf (after.pool index) side = countOf (before.pool index) side := by
    obtain ⟨-, reads, writes⟩ := stirred.counts index
    cases side with
    | reading => exact reads
    | writing => exact writes
  have ends (side : End) (index : PipeIndex) (slot : Slot) :
      taskEnds side (after.tasks slot) index = taskEnds side (before.tasks slot) index := by
    have related := stirred.tasks slot
    generalize before.tasks slot = prior at related ⊢
    generalize after.tasks slot = later at related ⊢
    cases related with
    | none => rfl
    | some change => simp only [taskEnds, change.zombie, change.fdTable]
  constructor
  · intro side index
    rw [counts, kept.exact]
    exact (HeldReferences.total_congr _ _ (ends side index)).symm
  · intro index live
    rw [counts, counts]
    rw [(stirred.counts index).1] at live
    exact kept.tight index live
  · intro slot task present
    obtain ⟨prior, priorPresent, change⟩ := option_rel_before (present ▸ stirred.tasks slot)
    rw [change.fdTable]
    exact kept.single slot prior priorPresent
  · intro slot task present dead
    obtain ⟨prior, priorPresent, change⟩ := option_rel_before (present ▸ stirred.tasks slot)
    rw [change.fdTable]
    exact kept.zombies slot prior priorPresent (change.zombie.mp dead)

theorem counts_kept_table {kernel : Kernel} {pool : Pool} {slot : Slot} {task : Task}
    {table : FdTable} (kept : CountsKept kernel) (present : kernel.tasks slot = some task)
    (moved : ∀ side index, countOf (pool index) side + tableEnds side task.fdTable index =
      countOf (kernel.pool index) side + tableEnds side table index)
    (tight : ∀ index, isTight (pool index))
    (single : ∀ side index, tableEnds side table index ≤ 1)
    (zombie : task.state = .zombie → ∀ side index, tableEnds side table index = 0) :
    CountsKept ({ kernel with pool := pool }.setTask slot { task with fdTable := table }) := by
  apply counts_kept_update kept rfl _ tight
  · intro changed same side index
    cases same
    exact single side index
  · intro changed same dead side index
    cases same
    exact zombie dead side index
  · intro side index
    have balance := moved side index
    rw [present]
    simp only [taskEnds]
    split_ifs with dead
    · rw [kept.zombies slot task present dead side index, zombie dead side index] at balance
      exact balance
    · exact balance

/-- A descriptor is replaced by an entry that denotes no pipe, and what it
denoted is released: `sys_close`, and `dup2` of another kind of descriptor. -/
theorem counts_kept_replace {kernel : Kernel} {slot : Slot} {task : Task} (fd : Fd)
    {entry : FdEntry} (kept : CountsKept kernel) (present : kernel.tasks slot = some task)
    (plain : ∀ side index, endsOf side entry index = 0) :
    CountsKept ({ kernel with pool := releaseEntry kernel.pool (task.fdTable fd) }.setTask slot
      { task with fdTable := Function.update task.fdTable fd entry }) := by
  have shrinks (side : End) (index : PipeIndex) :
      tableEnds side (Function.update task.fdTable fd entry) index +
        endsOf side (task.fdTable fd) index = tableEnds side task.fdTable index := by
    have updated := table_ends_update side task.fdTable fd entry index
    rwa [plain, Nat.add_zero] at updated
  refine counts_kept_table kept present ?_ ?_ ?_ ?_
  · intro side index
    have counted := table_le_count kept present side index
    have held := ends_le_table side task.fdTable fd index
    have smaller := shrinks side index
    rw [release_entry_count]
    omega
  · exact fun index => release_entry_tight _ (kept.tight index)
  · intro side index
    have bound := kept.single slot task present side index
    have smaller := shrinks side index
    omega
  · intro dead side index
    have none := kept.zombies slot task present dead side index
    have smaller := shrinks side index
    omega

theorem counts_kept_fill {kernel : Kernel} {slot : Slot} {task : Task} {fd : Fd}
    {entry : FdEntry} (kept : CountsKept kernel) (present : kernel.tasks slot = some task)
    (free : task.fdTable fd = .empty) (plain : ∀ side index, endsOf side entry index = 0) :
    CountsKept (kernel.setTask slot
      { task with fdTable := Function.update task.fdTable fd entry }) := by
  have replaced := counts_kept_replace fd kept present plain
  rw [free] at replaced
  exact replaced

theorem counts_kept_terminate {kernel : Kernel} {slot : Slot} {task after : Task}
    (kept : CountsKept kernel) (present : kernel.tasks slot = some task)
    (table : after.fdTable = fun _ => .empty) (dead : after.state = .zombie) :
    CountsKept ({ kernel with pool := FdTable.closeAll kernel.pool task.fdTable }.setTask slot
      after) := by
  have empty (side : End) (index : PipeIndex) : tableEnds side after.fdTable index = 0 := by
    rw [table]
    exact table_ends_empty side index
  apply counts_kept_update kept rfl
  · intro side index
    have counted := table_le_count kept present side index
    simp only [Kernel.setTask]
    rw [close_all_count, present]
    simp only [taskEnds, dead, if_true]
    split_ifs with already
    · rw [kept.zombies slot task present already side index]
      omega
    · omega
  · exact fun index => close_all_tight task.fdTable (kept.tight index)
  · intro changed same side index
    cases same
    rw [empty]
    exact Nat.zero_le 1
  · intro changed same _ side index
    cases same
    exact empty side index

theorem counts_kept_deliver (kernel : Kernel) (slot : Slot) (kept : CountsKept kernel) :
    CountsKept (kernel.deliverSlot slot) := by
  rcases deliver_slot_cases kernel slot with ⟨task, pending, present, -, killed⟩ | ⟨-, stirred⟩
  · rw [killed]
    exact counts_kept_stirred (counts_kept_terminate kept present rfl rfl)
      (wake_child_waiters_stirred _ _ _)
  · exact counts_kept_stirred kept stirred

theorem counts_kept_deliver_all {kernel : Kernel} (kept : CountsKept kernel) :
    CountsKept kernel.deliverAllSignals := by
  unfold Kernel.deliverAllSignals
  generalize taskSlots = slots
  induction slots generalizing kernel with
  | nil => exact kept
  | cons slot rest ih => exact ih (counts_kept_deliver kernel slot kept)

theorem vacant_task_ends {kernel : Kernel} {slot : Slot} (vacant : kernel.vacant slot = true)
    (side : End) (index : PipeIndex) : taskEnds side (kernel.tasks slot) index = 0 := by
  unfold Kernel.vacant at vacant
  cases present : kernel.tasks slot with
  | none => rfl
  | some task =>
      rw [present] at vacant
      simp only [Option.all_some, beq_iff_eq] at vacant
      simp [taskEnds, vacant]

theorem count_le_slots {kernel : Kernel} (kept : CountsKept kernel) (side : End)
    (index : PipeIndex) : countOf (kernel.pool index) side ≤ 64 := by
  have bound : kernelEnds side kernel index ≤ Fintype.card Slot * 1 :=
    HeldReferences.total_le_card_mul (taskEnds side) kernel.tasks
      fun slot => task_ends_le_one kept side slot index
  rw [Fintype.card_fin] at bound
  rw [kept.exact side index]
  simpa [maxTasks] using bound

/-- The child of a `fork` shares every end of its parent. -/
theorem counts_kept_fork {kernel : Kernel} {slot : Slot} {parent : Task}
    {request : Kernel.SpawnRequest} (kept : CountsKept kernel)
    (present : kernel.currentTask = some parent) (vacant : kernel.vacant slot = true)
    (inherits : request.inheritsFds = true) (table : request.child.fdTable = parent.fdTable) :
    CountsKept (kernel.install slot request) := by
  have copied (side : End) (index : PipeIndex) :
      countOf (FdTable.dupAll kernel.pool parent.fdTable index) side =
        countOf (kernel.pool index) side + tableEnds side parent.fdTable index := by
    apply dup_all_count
    · intro kind denoted
      have counted := table_le_count kept present kind index
      apply @in_use_of_count _ kind
      omega
    · intro kind
      have small := count_le_slots kept kind index
      have one := kept.single _ parent present kind index
      omega
  apply counts_kept_update kept rfl
  · intro side index
    simp only [Kernel.install, inherits, if_true, table]
    rw [copied, vacant_task_ends vacant]
    simp [taskEnds, request.ready]
  · intro index live
    simp only [Kernel.install, inherits, if_true, table] at live ⊢
    rw [dup_all_in_use] at live
    rw [copied, copied]
    have referenced := kept.tight index live
    omega
  · intro child same side index
    cases same
    simp only [table]
    exact kept.single _ parent present side index
  · intro child same dead
    cases same
    change request.child.state = .zombie at dead
    rw [request.ready] at dead
    cases dead

theorem counts_kept_spawn {kernel : Kernel} {slot : Slot} {request : Kernel.SpawnRequest}
    (kept : CountsKept kernel) (vacant : kernel.vacant slot = true)
    (fresh : request.inheritsFds = false) (table : request.child.fdTable = FdTable.new) :
    CountsKept (kernel.install slot request) := by
  have none (side : End) (index : PipeIndex) : tableEnds side request.child.fdTable index = 0 := by
    rw [table]
    exact table_ends_new side index
  apply counts_kept_update kept rfl
  · intro side index
    simp only [Kernel.install, fresh, Bool.false_eq_true, if_false]
    rw [vacant_task_ends vacant]
    simp [taskEnds, none]
  · intro index
    simpa only [Kernel.install, fresh, Bool.false_eq_true, if_false] using kept.tight index
  · intro child same side index
    cases same
    simp only [none]
    exact Nat.zero_le 1
  · intro child same _ side index
    cases same
    exact none side index

theorem counts_kept_pool {kernel : Kernel} {pool : Pool} (kept : CountsKept kernel)
    (counts : ∀ side index, countOf (pool index) side = countOf (kernel.pool index) side)
    (tight : ∀ index, isTight (pool index)) : CountsKept { kernel with pool := pool } where
  exact := fun side index => (counts side index).trans (kept.exact side index)
  tight := tight
  single := kept.single
  zombies := kept.zombies

theorem counts_kept_congr {before after : Kernel} (kept : CountsKept before)
    (tasks : after.tasks = before.tasks) (pool : after.pool = before.pool) :
    CountsKept after := by
  constructor
  · intro side index
    unfold kernelEnds
    rw [tasks, pool]
    exact kept.exact side index
  · rw [pool]
    exact kept.tight
  · rw [tasks]
    exact kept.single
  · rw [tasks]
    exact kept.zombies

/-- A task is rewritten without its descriptors. Leaving the zombie state is
harmless here: the table of a zombie denotes nothing. -/
theorem counts_kept_set {kernel : Kernel} {slot : Slot} {task after : Task}
    (kept : CountsKept kernel) (present : kernel.tasks slot = some task)
    (table : after.fdTable = task.fdTable) (dead : after.state = .zombie → task.state = .zombie) :
    CountsKept (kernel.setTask slot after) := by
  apply counts_kept_update kept rfl
  · intro side index
    have none := fun already => kept.zombies slot task present already side index
    rw [present]
    simp only [Kernel.setTask, taskEnds, table]
    split_ifs with before later
    · rfl
    · rw [none before]
    · exact absurd (dead ‹_›) before
    · rfl
  · exact kept.tight
  · intro changed same
    cases same
    rw [table]
    exact kept.single slot task present
  · intro changed same zombie
    cases same
    rw [table]
    exact kept.zombies slot task present (dead zombie)

theorem counts_kept_modify_current {kernel : Kernel} {change : Task → Task}
    (kept : CountsKept kernel) (table : ∀ task, (change task).fdTable = task.fdTable)
    (state : ∀ task, (change task).state = task.state) :
    CountsKept (kernel.modifyCurrent change) := by
  unfold Kernel.modifyCurrent
  cases present : kernel.currentTask with
  | none => exact kept
  | some task =>
      apply counts_kept_set kept present (table task)
      intro dead
      rwa [state] at dead

theorem counts_kept_clear {kernel : Kernel} {slot : Slot} (kept : CountsKept kernel)
    (vacant : kernel.vacant slot = true) :
    CountsKept { kernel with tasks := Function.update kernel.tasks slot none } := by
  apply counts_kept_update kept rfl
  · intro side index
    rw [vacant_task_ends vacant]
    rfl
  · exact kept.tight
  · intro task absent
    cases absent
  · intro task absent
    cases absent

end Ferrugem.PipeCountInvariant
