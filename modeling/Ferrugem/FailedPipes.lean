import Ferrugem.PipeReferenceCounts

/-!
# Failed `sys_pipe` and `sys_socketpair`

Both calls take pipes first and descriptors after, and give back what they took
when the second descriptor is missing. `sys_pipe` leaves the first descriptor in
place, and `sys_socketpair` also keeps one write end.
-/

namespace Ferrugem.FailedPipes

open Ferrugem.PipePoolModel Ferrugem.ProcessModel Ferrugem.SchedulerModel
open Ferrugem.DescriptorSyscalls Ferrugem.KernelEvolution Ferrugem.PipeEnds
open Ferrugem.PipeReferenceCounts

set_option autoImplicit false

section

variable {Place Value : Type} {vacant : Value → Bool} {held : Place → Value} {places : List Place}

theorem no_vacancy_iff :
    (places.find? fun place => vacant (held place)) = none ↔
      (places.filter fun place => vacant (held place)).length = 0 := by
  rw [List.find?_eq_none, List.length_eq_zero_iff, List.filter_eq_nil_iff]

theorem vacancies_taken [DecidableEq Place] {place : Place} {value : Value} (distinct : places.Nodup)
    (found : (places.find? fun place => vacant (held place)) = some place)
    (taken : vacant value = false) :
    (places.filter fun other => vacant (Function.update held place value other)).length + 1 =
      (places.filter fun place => vacant (held place)).length := by
  have matched : vacant (held place) = true :=
    @List.find?_some _ (fun place => vacant (held place)) _ _ found
  have member : place ∈ places.filter fun place => vacant (held place) :=
    List.mem_filter.mpr ⟨List.mem_of_find?_eq_some found, matched⟩
  have rest : (places.filter fun other => vacant (Function.update held place value other)) =
      (places.filter fun place => vacant (held place)).erase place := by
    rw [(distinct.filter _).erase_eq_filter, List.filter_filter]
    apply List.filter_congr
    intro other _
    by_cases same : other = place
    · simp [same, taken]
    · simp [same]
  rw [rest, List.length_erase_of_mem member]
  have positive := List.length_pos_of_mem member
  omega

end

theorem free_fds_zero_iff (table : FdTable) : FdTable.freeFd table = none ↔ freeFds table = 0 :=
  @no_vacancy_iff _ _ (fun entry => entry == FdEntry.empty) table _

theorem free_fds_taken {table : FdTable} {fd : Fd} {entry : FdEntry}
    (found : FdTable.freeFd table = some fd) (filled : entry ≠ .empty) :
    freeFds (Function.update table fd entry) + 1 = freeFds table := by
  apply @vacancies_taken _ _ (fun entry => entry == FdEntry.empty)
  · exact List.Pairwise.drop (List.nodup_finRange maxFds)
  · exact found
  · simpa using filled

def freePipes (pool : Pool) : Nat :=
  ((List.finRange maxPipes).filter fun index => !(pool index).inUse).length

theorem free_pipes_zero_iff (pool : Pool) : allocPipe pool = none ↔ freePipes pool = 0 := by
  unfold allocPipe
  rw [Option.map_eq_none_iff]
  exact @no_vacancy_iff _ _ (fun slot : PipeSlot => !slot.inUse) pool _

theorem free_pipes_taken {pool after : Pool} {idx : PipeIndex}
    (allocated : allocPipe pool = some (idx, after)) :
    freePipes after + 1 = freePipes pool := by
  unfold allocPipe at allocated
  obtain ⟨found, search, pair⟩ := Option.map_eq_some_iff.mp allocated
  simp only [Prod.mk.injEq] at pair
  obtain ⟨rfl, rfl⟩ := pair
  exact @vacancies_taken _ _ (fun slot : PipeSlot => !slot.inUse) _ _ _ _ _
    (List.nodup_finRange maxPipes) search rfl

inductive PairCall where
  | pipe (fdsPtr : Nat)
  | socketpair (svPtr : Nat)

def PairCall.perform (kernel : Kernel) : PairCall → Kernel × Int
  | .pipe fdsPtr => sysPipe kernel fdsPtr
  | .socketpair svPtr => sysSocketpair kernel svPtr

def callerTable (kernel : Kernel) : Option FdTable := kernel.currentTask.map Task.fdTable

/-- The descriptors of the caller and the flag and counts of every pipe. -/
structure Unchanged (before after : Kernel) : Prop where
  table : callerTable after = callerTable before
  inUse : ∀ index, (after.pool index).inUse = (before.pool index).inUse
  counts : ∀ side index, countOf (after.pool index) side = countOf (before.pool index) side

def Atomic (kernel : Kernel) (call : PairCall) : Prop :=
  (call.perform kernel).2 < 0 → Unchanged kernel (call.perform kernel).1

def callerFreeFds (kernel : Kernel) : Nat := ((callerTable kernel).map freeFds).getD 0

/-- The pointer is null, the pipes do not suffice, or the descriptors are such
that the call succeeds or, for `sys_pipe`, none was taken. -/
def RollsBack (kernel : Kernel) : PairCall → Prop
  | .pipe fdsPtr => fdsPtr = 0 ∨ freePipes kernel.pool = 0 ∨ callerFreeFds kernel ≠ 1
  | .socketpair svPtr => svPtr = 0 ∨ freePipes kernel.pool < 2 ∨ 2 ≤ callerFreeFds kernel

theorem unchanged_refl (kernel : Kernel) : Unchanged kernel kernel :=
  ⟨rfl, fun _ => rfl, fun _ _ => rfl⟩

theorem unchanged_close_pipe {kernel : Kernel} {idx : PipeIndex} {pool : Pool}
    (allocated : allocPipe kernel.pool = some (idx, pool)) :
    Unchanged kernel (closePipe { kernel with pool := pool } idx.val) := by
  have closed : (closePipe { kernel with pool := pool } idx.val).pool =
      closeEnd .writing (closeEnd .reading pool idx.val) idx.val := rfl
  have counts (side : End) (index : PipeIndex) :
      countOf (closeEnd .writing (closeEnd .reading pool idx.val) idx.val index) side =
        countOf (kernel.pool index) side := by
    rw [close_end_count, close_end_count, (alloc_pipe_counts allocated side index).2.2]
    by_cases same : index = idx
    · cases side <;> simp [same]
    · have elsewhere : index.val ≠ idx.val := fun equal => same (Fin.ext equal)
      simp [same, elsewhere]
  refine ⟨rfl, ?_, ?_⟩
  · intro index
    rw [closed]
    by_cases same : index = idx
    · subst same
      have free := (alloc_pipe_counts allocated .reading index).1
      have tight : isTight (pool index) := by
        intro _
        left
        rw [(alloc_pipe_counts allocated .reading index).2.2, if_pos rfl]
        omega
      have closedTight : isTight
          (closeEnd .writing (closeEnd .reading pool index.val) index.val index) :=
        close_end_tight (close_end_tight tight)
      rw [free]
      by_contra live
      have referenced := closedTight (by simpa using live)
      rw [counts, counts, count_free free, count_free free] at referenced
      simp at referenced
    · have elsewhere : index.val ≠ idx.val := fun equal => same (Fin.ext equal)
      rw [close_end_other _ _ elsewhere, close_end_other _ _ elsewhere,
        alloc_pipe_other allocated same]
  · rw [closed]
    exact counts

/-- The failure branch of `sys_socketpair` leaves a write end of the first
pipe open. -/
theorem socketpair_leaks {before pool after : Pool} {a b : PipeIndex}
    (first : allocPipe before = some (a, pool)) (second : allocPipe pool = some (b, after)) :
    countOf (closePipeRead (closePipeWrite (closePipeRead after a.val) b.val) b.val a) .writing ≠
      countOf (before a) .writing := by
  have free := (alloc_pipe_counts first .writing a).1
  have opened := (alloc_pipe_counts first .writing a).2.2
  have apart : a ≠ b := alloc_pipe_live second (alloc_pipe_counts first .writing a).2.1
  have elsewhere : a.val ≠ b.val := fun equal => apart (Fin.ext equal)
  have kept : closePipeRead (closePipeWrite (closePipeRead after a.val) b.val) b.val a =
      closeEnd .reading after a.val a := by
    have outer := close_end_other .reading (closePipeWrite (closePipeRead after a.val) b.val)
      elsewhere
    have inner := close_end_other .writing (closePipeRead after a.val) elsewhere
    exact outer.trans inner
  rw [kept, close_end_count, alloc_pipe_other second apart, opened, count_free free]
  simp

section

variable {kernel : Kernel} {first second : FdEntry}

theorem caller_table_set (task : Task) (table : FdTable) :
    callerTable (kernel.setTask kernel.current { task with fdTable := table }) = some table := by
  unfold callerTable Kernel.currentTask
  rw [show (kernel.setTask kernel.current { task with fdTable := table }).current =
    kernel.current from rfl, set_task_same]
  rfl

theorem no_fd_taken (none : callerFreeFds kernel = 0) (entry : FdEntry) :
    currentFdAlloc kernel entry = (kernel, Option.none) := by
  apply current_fd_alloc_full
  intro task present
  rw [free_fds_zero_iff]
  unfold callerFreeFds callerTable at none
  rw [Option.mem_def] at present
  rw [present] at none
  exact none

theorem fd_taken {entry : FdEntry} (free : callerFreeFds kernel ≠ 0) (filled : entry ≠ .empty) :
    ∃ fd, (currentFdAlloc kernel entry).2 = some fd ∧
      callerFreeFds (currentFdAlloc kernel entry).1 + 1 = callerFreeFds kernel ∧
      ∃ table, callerTable (currentFdAlloc kernel entry).1 = some table ∧ table fd = entry ∧
        ∃ before, callerTable kernel = some before ∧ before fd = .empty := by
  cases present : kernel.currentTask with
  | none =>
      unfold callerFreeFds callerTable at free
      rw [present] at free
      exact absurd rfl free
  | some task =>
      have table : callerTable kernel = some task.fdTable := by
        unfold callerTable
        rw [present]
        rfl
      have some : freeFds task.fdTable ≠ 0 := by
        unfold callerFreeFds at free
        rw [table] at free
        exact free
      obtain ⟨fd, found⟩ := Option.ne_none_iff_exists'.mp
        (fun none => some ((free_fds_zero_iff task.fdTable).mp none))
      have taken := current_fd_alloc_free entry present found
      have after := @caller_table_set kernel task (Function.update task.fdTable fd entry)
      refine ⟨fd, ?_, ?_, Function.update task.fdTable fd entry, ?_, Function.update_self _ _ _,
        task.fdTable, table, free_fd_empty found⟩
      · rw [taken]
      · rw [taken]
        unfold callerFreeFds
        rw [after, table]
        exact free_fds_taken found filled
      · rw [taken]
        exact after

theorem one_fd_taken (one : callerFreeFds kernel = 1) (filled : first ≠ .empty) :
    (currentFdAlloc (currentFdAlloc kernel first).1 second).2 = none ∧
      callerTable (currentFdAlloc (currentFdAlloc kernel first).1 second).1 ≠
        callerTable kernel := by
  obtain ⟨fd, _, left, table, after, here, before, table', empty⟩ :=
    fd_taken (by omega : callerFreeFds kernel ≠ 0) filled
  rw [no_fd_taken (by omega) second]
  refine ⟨rfl, ?_⟩
  rw [after, table']
  intro same
  rw [Option.some.inj same, empty] at here
  exact filled here.symm

theorem two_fds_taken (two : 2 ≤ callerFreeFds kernel) (filled : first ≠ .empty)
    (filledToo : second ≠ .empty) :
    (currentFdAlloc kernel first).2 ≠ none ∧
      (currentFdAlloc (currentFdAlloc kernel first).1 second).2 ≠ none := by
  obtain ⟨fd, taken, left, _⟩ := fd_taken (by omega : callerFreeFds kernel ≠ 0) filled
  obtain ⟨other, takenToo, _⟩ :=
    fd_taken (by omega : callerFreeFds (currentFdAlloc kernel first).1 ≠ 0) filledToo
  constructor
  · rw [taken]
    nofun
  · rw [takenToo]
    nofun

end

theorem pipe_atomic_iff (kernel : Kernel) (fdsPtr : Nat) :
    Atomic kernel (.pipe fdsPtr) ↔ RollsBack kernel (.pipe fdsPtr) := by
  unfold Atomic RollsBack PairCall.perform
  dsimp only
  unfold sysPipe
  by_cases null : fdsPtr = 0
  · rw [if_pos null]
    exact iff_of_true (fun _ => unchanged_refl kernel) (.inl null)
  rw [if_neg null]
  cases allocated : allocPipe kernel.pool with
  | none =>
      exact iff_of_true (fun _ => unchanged_refl kernel)
        (.inr (.inl ((free_pipes_zero_iff kernel.pool).mp allocated)))
  | some opened =>
      obtain ⟨idx, pool⟩ := opened
      have free : freePipes kernel.pool ≠ 0 := by
        have taken := free_pipes_taken allocated
        omega
      dsimp only
      have same : callerFreeFds { kernel with pool := pool } = callerFreeFds kernel := rfl
      rcases Nat.lt_trichotomy (callerFreeFds kernel) 1 with less | one | more
      · have failed := @no_fd_taken { kernel with pool := pool } (by omega)
        rw [failed, failed]
        exact iff_of_true (fun _ => unchanged_close_pipe allocated) (.inr (.inr (by omega)))
      · obtain ⟨failed, kept⟩ := @one_fd_taken { kernel with pool := pool }
          (.pipeRead idx.val) (.pipeWrite idx.val) (by omega) nofun
        rw [failed]
        apply iff_of_false
        · split
          · contradiction
          · intro atomic
            exact kept (atomic (by omega)).table
        · omega
      · obtain ⟨first, second⟩ := @two_fds_taken { kernel with pool := pool }
          (.pipeRead idx.val) (.pipeWrite idx.val) (by omega) nofun nofun
        obtain ⟨fd, taken⟩ := Option.ne_none_iff_exists'.mp first
        obtain ⟨other, takenToo⟩ := Option.ne_none_iff_exists'.mp second
        rw [taken, takenToo]
        apply iff_of_true
        · dsimp only
          omega
        · omega

theorem socketpair_atomic_iff (kernel : Kernel) (svPtr : Nat) :
    Atomic kernel (.socketpair svPtr) ↔ RollsBack kernel (.socketpair svPtr) := by
  unfold Atomic RollsBack PairCall.perform
  dsimp only
  unfold sysSocketpair
  by_cases null : svPtr = 0
  · rw [if_pos null]
    exact iff_of_true (fun _ => unchanged_refl kernel) (.inl null)
  rw [if_neg null]
  cases allocated : allocPipe kernel.pool with
  | none =>
      have none := (free_pipes_zero_iff kernel.pool).mp allocated
      exact iff_of_true (fun _ => unchanged_refl kernel) (.inr (.inl (by omega)))
  | some opened =>
      obtain ⟨a, poolA⟩ := opened
      have taken := free_pipes_taken allocated
      dsimp only
      cases allocatedToo : allocPipe poolA with
      | none =>
          have none := (free_pipes_zero_iff poolA).mp allocatedToo
          exact iff_of_true (fun _ => unchanged_close_pipe allocated) (.inr (.inl (by omega)))
      | some openedToo =>
          obtain ⟨b, poolB⟩ := openedToo
          have takenToo := free_pipes_taken allocatedToo
          have same : callerFreeFds { kernel with pool := poolB } = callerFreeFds kernel := rfl
          have pools (first second : FdEntry) : (currentFdAlloc (currentFdAlloc
              { kernel with pool := poolB } first).1 second).1.pool = poolB := by
            rw [current_fd_alloc_pool, current_fd_alloc_pool]
          dsimp only
          by_cases enough : 2 ≤ callerFreeFds kernel
          · obtain ⟨first, second⟩ := @two_fds_taken { kernel with pool := poolB }
              (.socketPair a.val b.val) (.socketPair b.val a.val) (by omega) nofun nofun
            obtain ⟨fd, filled⟩ := Option.ne_none_iff_exists'.mp first
            obtain ⟨other, filledToo⟩ := Option.ne_none_iff_exists'.mp second
            rw [filled, filledToo]
            apply iff_of_true
            · dsimp only
              omega
            · omega
          · have failed : (currentFdAlloc (currentFdAlloc { kernel with pool := poolB }
                (.socketPair a.val b.val)).1 (.socketPair b.val a.val)).2 = none := by
              by_cases one : callerFreeFds kernel = 1
              · exact (@one_fd_taken { kernel with pool := poolB } (.socketPair a.val b.val)
                  (.socketPair b.val a.val) (by omega) nofun).1
              · have refused := @no_fd_taken { kernel with pool := poolB } (by omega)
                rw [refused, refused]
            rw [failed]
            apply iff_of_false
            · split
              · contradiction
              · intro atomic
                have counted := (atomic (by omega)).counts .writing a
                dsimp only at counted
                rw [pools] at counted
                exact socketpair_leaks allocated allocatedToo counted
            · omega

/-- A failed `sys_pipe` leaves everything as it was unless exactly one
descriptor was free; a failed `sys_socketpair` does so only if it took no
second pipe. -/
theorem failed_pair_atomic_iff (kernel : Kernel) (call : PairCall) :
    Atomic kernel call ↔ RollsBack kernel call := by
  cases call with
  | pipe fdsPtr => exact pipe_atomic_iff kernel fdsPtr
  | socketpair svPtr => exact socketpair_atomic_iff kernel svPtr

def runningWith (table : FdTable) : Kernel :=
  { boot.setTask firstSlot { Task.newUser 1 0x200000 0x300000 0 with fdTable := table } with
    current := firstSlot }

/-- Every descriptor below `limit` is open. -/
def openBelow (limit : Nat) : FdTable := fun fd => if fd.val < limit then .devNull else .empty

/-- With no free descriptor `sys_socketpair` keeps a pipe in use; with one,
`sys_pipe` keeps a descriptor. -/
theorem failed_calls_keep_what_they_took :
    ((sysSocketpair (runningWith (openBelow 16)) 0x8000001000).2 = -24 ∧
        ¬Atomic (runningWith (openBelow 16)) (.socketpair 0x8000001000)) ∧
      (sysPipe (runningWith (openBelow 15)) 0x8000001000).2 = -24 ∧
        ¬Atomic (runningWith (openBelow 15)) (.pipe 0x8000001000) := by
  refine ⟨⟨by decide +kernel, ?_⟩, by decide +kernel, ?_⟩
  · intro atomic
    have same := (atomic (by decide +kernel)).inUse ⟨0, by decide⟩
    revert same
    decide +kernel
  · intro atomic
    have same := congrArg (Option.map fun table => table ⟨15, by decide⟩)
      (atomic (by decide +kernel)).table
    revert same
    decide +kernel

end Ferrugem.FailedPipes
