import Ferrugem.Library.HeldReferences
import Ferrugem.KernelEvolution

/-!
# Pipe ends and their counts

A descriptor denotes a read end, a write end or, for a socket pair, one of
each. `endsOf` counts the ends an entry denotes, `tableEnds` those of a table
and `kernelEnds` those of all tasks that have not terminated. The operations of
the pool are described by what they do to the two counts of each pipe.
-/

namespace Ferrugem.PipeEnds

open Ferrugem.PipePoolModel Ferrugem.ProcessModel Ferrugem.SchedulerModel
open Ferrugem.DescriptorSyscalls Ferrugem.KernelEvolution

set_option autoImplicit false

inductive End where
  | reading
  | writing
  deriving DecidableEq

def End.pipe : End → FdEntry → Option Nat
  | .reading => readPipe
  | .writing => writePipe

def countOf (slot : PipeSlot) : End → Nat
  | .reading => slot.readCount
  | .writing => slot.writeCount

def endsOf (side : End) (entry : FdEntry) (index : PipeIndex) : Nat :=
  if side.pipe entry = some index.val then 1 else 0

def tableEnds (side : End) (table : FdTable) (index : PipeIndex) : Nat :=
  HeldReferences.total (endsOf side) table index

def taskEnds (side : End) (task : Option Task) (index : PipeIndex) : Nat :=
  match task with
  | some task => if task.state = .zombie then 0 else tableEnds side task.fdTable index
  | none => 0

def kernelEnds (side : End) (kernel : Kernel) (index : PipeIndex) : Nat :=
  HeldReferences.total (taskEnds side) kernel.tasks index

def closeEnd (side : End) (pool : Pool) (idx : Nat) : Pool :=
  match side with
  | .reading => closePipeRead pool idx
  | .writing => closePipeWrite pool idx

def dupEnd (side : End) (pool : Pool) (idx : Nat) : Pool :=
  match side with
  | .reading => dupPipeRead pool idx
  | .writing => dupPipeWrite pool idx

theorem count_free {slot : PipeSlot} (free : slot.inUse = false) (side : End) :
    countOf slot side = 0 := by
  cases side with
  | reading => exact (slot.unreferenced free).1
  | writing => exact (slot.unreferenced free).2

theorem in_use_of_count {slot : PipeSlot} {side : End} (counted : countOf slot side ≠ 0) :
    slot.inUse = true := by
  by_contra free
  exact counted (count_free (by simpa using free) side)

def isTight (slot : PipeSlot) : Prop :=
  slot.inUse = true → countOf slot .reading ≠ 0 ∨ countOf slot .writing ≠ 0

theorem free_if_unreferenced_count (slot : PipeSlot) (side : End) :
    countOf (freeIfUnreferenced slot) side = countOf slot side := by
  unfold freeIfUnreferenced
  split_ifs
  · cases side <;> rfl
  · rfl

theorem free_if_unreferenced_tight (slot : PipeSlot) : isTight (freeIfUnreferenced slot) := by
  unfold freeIfUnreferenced
  split_ifs with empty
  · intro live
    cases live
  · intro live
    simp only [countOf]
    omega

/-- What `modifyInUse` leaves in a slot: the old contents elsewhere and in a
free slot, the changed ones otherwise. -/
theorem modify_in_use_cases {pool : Pool} {idx : Nat} {index : PipeIndex}
    {change : (slot : PipeSlot) → slot.inUse = true → PipeSlot} (Holds : PipeSlot → Prop)
    (elsewhere : index.val ≠ idx → Holds (pool index))
    (free : index.val = idx → (pool index).inUse = false → Holds (pool index))
    (changed : index.val = idx → ∀ live, Holds (change (pool index) live)) :
    Holds (modifyInUse pool idx change index) := by
  by_cases same : index.val = idx
  · subst same
    cases live : (pool index).inUse with
    | true => simpa [modifyInUse, live] using changed rfl live
    | false => simpa [modifyInUse, live] using free rfl live
  · have unchanged : modifyInUse pool idx change index = pool index := by
      unfold modifyInUse
      split_ifs with bound live
      · apply Function.update_of_ne
        rintro rfl
        exact same rfl
      · rfl
      · rfl
    rw [unchanged]
    exact elsewhere same

def closeChange (side : End) (slot : PipeSlot) (live : slot.inUse = true) : PipeSlot :=
  match side with
  | .reading => freeIfUnreferenced (slot.recount live (slot.readCount - 1) slot.writeCount)
  | .writing => freeIfUnreferenced (slot.recount live slot.readCount (slot.writeCount - 1))

def dupChange (side : End) (slot : PipeSlot) (live : slot.inUse = true) : PipeSlot :=
  match side with
  | .reading =>
      if slot.readCount < 255 then slot.recount live (slot.readCount + 1) slot.writeCount else slot
  | .writing =>
      if slot.writeCount < 255 then slot.recount live slot.readCount (slot.writeCount + 1) else slot

theorem close_end_eq (side : End) (pool : Pool) (idx : Nat) :
    closeEnd side pool idx = modifyInUse pool idx (closeChange side) := by
  cases side <;> rfl

theorem dup_end_eq (side : End) (pool : Pool) (idx : Nat) :
    dupEnd side pool idx = modifyInUse pool idx (dupChange side) := by
  cases side <;> rfl

theorem close_end_count (side other : End) (pool : Pool) (idx : Nat) (index : PipeIndex) :
    countOf (closeEnd side pool idx index) other =
      countOf (pool index) other - (if side = other ∧ index.val = idx then 1 else 0) := by
  rw [close_end_eq]
  apply modify_in_use_cases
    (fun slot => countOf slot other =
      countOf (pool index) other - (if side = other ∧ index.val = idx then 1 else 0))
  · intro different
    simp [different]
  · intro same free
    simp [count_free free]
  · intro same live
    cases side <;> simp only [closeChange, free_if_unreferenced_count] <;> cases other <;>
      simp [PipeSlot.recount, countOf, same]

theorem close_end_other (side : End) (pool : Pool) {idx : Nat} {index : PipeIndex}
    (different : index.val ≠ idx) : closeEnd side pool idx index = pool index := by
  rw [close_end_eq]
  apply modify_in_use_cases (fun slot => slot = pool index)
  · exact fun _ => rfl
  · exact fun _ _ => rfl
  · exact fun same => absurd same different

theorem close_end_tight {side : End} {pool : Pool} {idx : Nat} {index : PipeIndex}
    (tight : isTight (pool index)) : isTight (closeEnd side pool idx index) := by
  rw [close_end_eq]
  apply modify_in_use_cases isTight
  · exact fun _ => tight
  · exact fun _ _ => tight
  · intro same live
    cases side <;> exact free_if_unreferenced_tight _

/-- A copy is counted when the pipe is in use and the count is below its
limit. -/
theorem dup_end_count (side other : End) (pool : Pool) (idx : Nat) (index : PipeIndex)
    (counted : side = other → index.val = idx →
      (pool index).inUse = true ∧ countOf (pool index) other < 255) :
    countOf (dupEnd side pool idx index) other =
      countOf (pool index) other + (if side = other ∧ index.val = idx then 1 else 0) := by
  rw [dup_end_eq]
  apply modify_in_use_cases
    (fun slot => countOf slot other =
      countOf (pool index) other + (if side = other ∧ index.val = idx then 1 else 0))
  · intro different
    simp [different]
  · intro same free
    have different : side ≠ other := by
      intro both
      have live := (counted both same).1
      rw [free] at live
      cases live
    simp [different]
  · intro same live
    by_cases both : side = other
    · subst both
      have small := (counted rfl same).2
      cases side <;> simp only [countOf] at small <;>
        simp [dupChange, small, PipeSlot.recount, countOf, same]
    · rw [if_neg (fun pair => both pair.1), Nat.add_zero]
      cases side <;> cases other
      · exact absurd rfl both
      · simp only [dupChange]
        split_ifs <;> rfl
      · simp only [dupChange]
        split_ifs <;> rfl
      · exact absurd rfl both

theorem dup_end_in_use (side : End) (pool : Pool) (idx : Nat) (index : PipeIndex) :
    (dupEnd side pool idx index).inUse = (pool index).inUse := by
  rw [dup_end_eq]
  apply modify_in_use_cases (fun slot => slot.inUse = (pool index).inUse)
  · exact fun _ => rfl
  · exact fun _ _ => rfl
  · intro same live
    cases side <;> simp only [dupChange] <;> split_ifs <;> rfl

theorem release_entry_count (pool : Pool) (entry : FdEntry) (side : End) (index : PipeIndex) :
    countOf (releaseEntry pool entry index) side =
      countOf (pool index) side - endsOf side entry index := by
  have one (kind : End) (idx : Nat) :
      countOf (closeEnd kind pool idx index) side =
        countOf (pool index) side - (if kind = side ∧ index.val = idx then 1 else 0) :=
    close_end_count kind side pool idx index
  cases entry with
  | pipeRead idx =>
      have closed := one .reading idx
      simp only [closeEnd] at closed
      cases side <;> simp [releaseEntry, closed, endsOf, End.pipe, readPipe, writePipe, eq_comm]
  | pipeWrite idx =>
      have closed := one .writing idx
      simp only [closeEnd] at closed
      cases side <;> simp [releaseEntry, closed, endsOf, End.pipe, readPipe, writePipe, eq_comm]
  | socketPair readIdx writeIdx =>
      have first := one .reading readIdx
      have second := close_end_count .writing side (closePipeRead pool readIdx) writeIdx index
      simp only [closeEnd] at first second
      cases side <;>
        simp [releaseEntry, first, second, endsOf, End.pipe, readPipe, writePipe, eq_comm]
  | _ => cases side <;> simp [releaseEntry, endsOf, End.pipe, readPipe, writePipe]

theorem release_entry_tight {pool : Pool} {index : PipeIndex} (entry : FdEntry)
    (tight : isTight (pool index)) : isTight (releaseEntry pool entry index) := by
  have closes (side : End) (pool : Pool) (idx : Nat) (tight : isTight (pool index)) :
      isTight (closeEnd side pool idx index) := close_end_tight tight
  cases entry with
  | pipeRead idx => exact closes .reading pool idx tight
  | pipeWrite idx => exact closes .writing pool idx tight
  | socketPair readIdx writeIdx =>
      exact closes .writing _ writeIdx (closes .reading pool readIdx tight)
  | _ => exact tight

theorem release_all_count (table : FdTable) (fds : List Fd) (pool : Pool) (side : End)
    (index : PipeIndex) :
    countOf (fds.foldl (fun pool fd => releaseEntry pool (table fd)) pool index) side =
      countOf (pool index) side - (fds.map fun fd => endsOf side (table fd) index).sum := by
  induction fds generalizing pool with
  | nil => simp
  | cons fd rest ih =>
      simp only [List.foldl_cons, List.map_cons, List.sum_cons]
      rw [ih, release_entry_count, Nat.sub_sub]

theorem close_all_count (pool : Pool) (table : FdTable) (side : End) (index : PipeIndex) :
    countOf (FdTable.closeAll pool table index) side =
      countOf (pool index) side - tableEnds side table index := by
  unfold FdTable.closeAll tableEnds
  rw [release_all_count, HeldReferences.total_eq_list_sum]

theorem close_all_tight {pool : Pool} (table : FdTable) {index : PipeIndex}
    (tight : isTight (pool index)) : isTight (FdTable.closeAll pool table index) := by
  unfold FdTable.closeAll
  generalize List.finRange maxFds = fds
  induction fds generalizing pool with
  | nil => exact tight
  | cons fd rest ih => exact ih (release_entry_tight (table fd) tight)

/-- Copying an entry counts each of its ends, in a pipe that is in use with
room in its counts. -/
theorem dup_entry_count (pool : Pool) (entry : FdEntry) (side : End) (index : PipeIndex)
    (counted : ∀ kind, endsOf kind entry index ≠ 0 →
      (pool index).inUse = true ∧ countOf (pool index) kind < 255) :
    countOf (dupEntry pool entry index) side =
      countOf (pool index) side + endsOf side entry index := by
  have one (kind : End) (pool : Pool) (idx : Nat)
      (room : kind = side → index.val = idx →
        (pool index).inUse = true ∧ countOf (pool index) side < 255) :
      countOf (dupEnd kind pool idx index) side =
        countOf (pool index) side + (if kind = side ∧ index.val = idx then 1 else 0) :=
    dup_end_count kind side pool idx index room
  cases entry with
  | pipeRead idx =>
      have copied := one .reading pool idx fun same here => by
        subst same
        exact counted .reading (by simp [endsOf, End.pipe, readPipe, here])
      simp only [dupEnd] at copied
      cases side <;> simp [dupEntry, copied, endsOf, End.pipe, readPipe, writePipe, eq_comm]
  | pipeWrite idx =>
      have copied := one .writing pool idx fun same here => by
        subst same
        exact counted .writing (by simp [endsOf, End.pipe, writePipe, here])
      simp only [dupEnd] at copied
      cases side <;> simp [dupEntry, copied, endsOf, End.pipe, readPipe, writePipe, eq_comm]
  | socketPair readIdx writeIdx =>
      have first := one .reading pool readIdx fun same here => by
        subst same
        exact counted .reading (by simp [endsOf, End.pipe, readPipe, here])
      have second := one .writing (dupEnd .reading pool readIdx) writeIdx fun same here => by
        subst same
        rw [dup_end_in_use, dup_end_count .reading .writing _ _ _ (by simp)]
        simpa using counted .writing (by simp [endsOf, End.pipe, writePipe, here])
      simp only [dupEnd] at first second
      cases side <;>
        simp [dupEntry, first, second, endsOf, End.pipe, readPipe, writePipe, eq_comm]
  | _ => cases side <;> simp [dupEntry, endsOf, End.pipe, readPipe, writePipe]

theorem dup_entry_in_use (pool : Pool) (entry : FdEntry) (index : PipeIndex) :
    (dupEntry pool entry index).inUse = (pool index).inUse := by
  cases entry with
  | pipeRead idx => exact dup_end_in_use .reading pool idx index
  | pipeWrite idx => exact dup_end_in_use .writing pool idx index
  | socketPair readIdx writeIdx =>
      exact (dup_end_in_use .writing _ writeIdx index).trans
        (dup_end_in_use .reading pool readIdx index)
  | _ => rfl

theorem dup_list_count (table : FdTable) (fds : List Fd) (pool : Pool) (index : PipeIndex)
    (live : ∀ fd ∈ fds, ∀ kind, endsOf kind (table fd) index ≠ 0 → (pool index).inUse = true)
    (room : ∀ kind, countOf (pool index) kind +
      (fds.map fun fd => endsOf kind (table fd) index).sum ≤ 255) (side : End) :
    countOf (fds.foldl (fun pool fd => dupEntry pool (table fd)) pool index) side =
      countOf (pool index) side + (fds.map fun fd => endsOf side (table fd) index).sum := by
  induction fds generalizing pool with
  | nil => simp
  | cons fd rest ih =>
      simp only [List.map_cons, List.sum_cons] at room
      have copied : ∀ kind, countOf (dupEntry pool (table fd) index) kind =
          countOf (pool index) kind + endsOf kind (table fd) index := by
        intro kind
        apply dup_entry_count
        intro other denoted
        have limit := room other
        exact ⟨live fd (by simp) other denoted, by omega⟩
      simp only [List.foldl_cons, List.map_cons, List.sum_cons]
      rw [ih, copied]
      · omega
      · intro other member kind denoted
        rw [dup_entry_in_use]
        exact live other (List.mem_cons_of_mem _ member) kind denoted
      · intro kind
        have limit := room kind
        rw [copied]
        omega

theorem dup_all_count {pool : Pool} {table : FdTable} {index : PipeIndex}
    (live : ∀ kind, tableEnds kind table index ≠ 0 → (pool index).inUse = true)
    (room : ∀ kind, countOf (pool index) kind + tableEnds kind table index ≤ 255) (side : End) :
    countOf (FdTable.dupAll pool table index) side =
      countOf (pool index) side + tableEnds side table index := by
  unfold FdTable.dupAll tableEnds
  rw [dup_list_count, HeldReferences.total_eq_list_sum]
  · intro fd _ kind denoted
    apply live kind
    have below := HeldReferences.count_le_total (endsOf kind) table fd index
    unfold tableEnds
    omega
  · intro kind
    have limit := room kind
    rw [tableEnds, HeldReferences.total_eq_list_sum] at limit
    exact limit

theorem dup_all_in_use (pool : Pool) (table : FdTable) (index : PipeIndex) :
    (FdTable.dupAll pool table index).inUse = (pool index).inUse := by
  unfold FdTable.dupAll
  generalize List.finRange maxFds = fds
  induction fds generalizing pool with
  | nil => rfl
  | cons fd rest ih => exact (ih _).trans (dup_entry_in_use pool (table fd) index)

theorem dup_end_le (side other : End) (pool : Pool) (idx : Nat) (index : PipeIndex) :
    countOf (pool index) other ≤ countOf (dupEnd side pool idx index) other := by
  rw [dup_end_eq]
  apply modify_in_use_cases (fun slot => countOf (pool index) other ≤ countOf slot other)
  · exact fun _ => Nat.le_refl _
  · exact fun _ _ => Nat.le_refl _
  · intro same live
    cases side <;> simp only [dupChange] <;> split_ifs <;> cases other <;>
      simp [PipeSlot.recount, countOf]

theorem dup_all_le (pool : Pool) (table : FdTable) (index : PipeIndex) (side : End) :
    countOf (pool index) side ≤ countOf (FdTable.dupAll pool table index) side := by
  have entry (pool : Pool) (entry : FdEntry) :
      countOf (pool index) side ≤ countOf (dupEntry pool entry index) side := by
    cases entry with
    | pipeRead idx => exact dup_end_le .reading side pool idx index
    | pipeWrite idx => exact dup_end_le .writing side pool idx index
    | socketPair readIdx writeIdx =>
        exact (dup_end_le .reading side pool readIdx index).trans
          (dup_end_le .writing side _ writeIdx index)
    | _ => exact Nat.le_refl _
  unfold FdTable.dupAll
  generalize List.finRange maxFds = fds
  induction fds generalizing pool with
  | nil => exact Nat.le_refl _
  | cons fd rest ih => exact (entry pool (table fd)).trans (ih _)

theorem alloc_pipe_counts {pool after : Pool} {idx : PipeIndex}
    (allocated : allocPipe pool = some (idx, after)) (side : End) (index : PipeIndex) :
    (pool idx).inUse = false ∧ (after idx).inUse = true ∧
      countOf (after index) side = countOf (pool index) side + (if index = idx then 1 else 0) := by
  unfold allocPipe at allocated
  obtain ⟨found, search, pair⟩ := Option.map_eq_some_iff.mp allocated
  simp only [Prod.mk.injEq] at pair
  obtain ⟨rfl, rfl⟩ := pair
  have free : (pool found).inUse = false := by simpa using List.find?_some search
  refine ⟨free, by simp, ?_⟩
  by_cases same : index = found
  · subst same
    rw [count_free free]
    cases side <;> simp [countOf]
  · simp [same]

theorem alloc_pipe_other {pool after : Pool} {idx index : PipeIndex}
    (allocated : allocPipe pool = some (idx, after)) (different : index ≠ idx) :
    after index = pool index := by
  unfold allocPipe at allocated
  obtain ⟨found, search, pair⟩ := Option.map_eq_some_iff.mp allocated
  simp only [Prod.mk.injEq] at pair
  obtain ⟨rfl, rfl⟩ := pair
  simp [different]

theorem alloc_pipe_live {pool after : Pool} {idx index : PipeIndex}
    (allocated : allocPipe pool = some (idx, after)) (live : (pool index).inUse = true) :
    index ≠ idx := by
  rintro rfl
  have free := (alloc_pipe_counts allocated .reading index).1
  rw [live] at free
  cases free

theorem alloc_pipe_tight {pool after : Pool} {idx : PipeIndex}
    (allocated : allocPipe pool = some (idx, after)) {index : PipeIndex}
    (tight : isTight (pool index)) : isTight (after index) := by
  have counts := alloc_pipe_counts allocated .reading index
  by_cases same : index = idx
  · intro _
    left
    rw [counts.2.2, if_pos same]
    omega
  · rwa [alloc_pipe_other allocated same]

theorem current_fd_alloc_pool (kernel : Kernel) (entry : FdEntry) :
    (currentFdAlloc kernel entry).1.pool = kernel.pool := by
  unfold currentFdAlloc
  split
  · rfl
  · split <;> rfl

theorem current_fd_close_pool (kernel : Kernel) (fd : Nat) :
    (currentFdClose kernel fd).1.pool = kernel.pool := by
  unfold currentFdClose
  split
  · rfl
  · split <;> rfl

theorem sys_dup_pool (kernel : Kernel) (fd : Nat) : (sysDup kernel fd).1.pool = kernel.pool := by
  unfold sysDup currentFdDup
  split
  · rfl
  · exact current_fd_alloc_pool kernel _

theorem sys_fcntl_pool (kernel : Kernel) (fd cmd : Nat) :
    (sysFcntl kernel fd cmd).1.pool = kernel.pool := by
  unfold sysFcntl
  split
  · rfl
  · split
    · exact sys_dup_pool kernel fd
    all_goals rfl

end Ferrugem.PipeEnds
