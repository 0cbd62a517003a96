import Ferrugem.FailedGrowth

/-!
# Failed creation of a process

`spawn_user`, `spawn_elf`, `spawn_fork` and `execve_current` take a kernel stack,
tables and pages one after another and return early when one is missing. Nothing
is given back, so only a failure before the first frame leaves no trace.
-/

namespace Ferrugem.FailedCreation

open Ferrugem.PagingModel Ferrugem.ElfLoaderModel Ferrugem.AddressSpaceModel
open Ferrugem.ProcessModel Ferrugem.SchedulerModel Ferrugem.BitmapPages
open Ferrugem.HeapRegions Ferrugem.FrameConsumption Ferrugem.FailedGrowth Fallible

set_option autoImplicit false

variable {image : KernelImage}

/-- The task table, `GUARD_PHYS`, the next pid, the pipe pool and the number of
free frames are what they were. -/
structure CreationUndone (before after : System (PageSupply image)) : Prop where
  tasks : after.kernel.tasks = before.kernel.tasks
  guardPhys : after.kernel.guardPhys = before.kernel.guardPhys
  nextPid : after.kernel.nextPid = before.kernel.nextPid
  pool : after.kernel.pool = before.kernel.pool
  frames : freeFrames after.space = freeFrames before.space

theorem CreationUndone.refl (system : System (PageSupply image)) : CreationUndone system system :=
  ⟨rfl, rfl, rfl, rfl, rfl⟩

theorem alloc_root_begins (source : Nat) (change : Entry → Entry) :
    BeginsWith 1 (allocRoot (PageSupply.pageAllocator image) source change) := by
  apply alloc_zeroed_page_begins.bind
  intro pml4 Inv closed
  apply preserves_bind (keeps_read _ _)
  intro entry
  exact preserves_bind (keeps_change _) fun _ => preserves_pure _

theorem alloc_kernel_stack_begins :
    BeginsWith (1 + stackPages) (allocKernelStack (PageSupply.pageAllocator image)) := by
  apply (begins_with_alloc (by decide)).bind
  intro stack Inv closed
  apply preserves_bind (keeps_protect_guard_page closed _)
  intro _
  exact preserves_bind (keeps_change _) fun _ => preserves_pure _

theorem build_user_task_begins (prog : Bytes) :
    BeginsWith (1 + stackPages) (buildUserTask (PageSupply.pageAllocator image) prog) := by
  apply alloc_kernel_stack_begins.bind
  intro guardPhys Inv closed
  apply preserves_bind (keeps_alloc_pages closed 1)
  intro codePhys
  apply preserves_bind (keeps_alloc_pages closed 1)
  intro ustackPhys
  apply preserves_bind (keeps_change _)
  intro _
  apply preserves_bind (keeps_create_process_page_table closed _ _)
  intro pt
  exact preserves_bind (keeps_write_words _ _) fun _ => preserves_pure _

theorem load_exec_image_begins (data argv0 : Bytes) (argv envp : List Bytes) (seed : BitVec 64) :
    BeginsWith 1
      (loadExecImage (PageSupply.pageAllocator image) data argv0 argv envp seed) := by
  apply (alloc_root_begins _ _).bind
  intro pt Inv closed
  apply preserves_bind (keeps_load closed _ _)
  intro loaded
  apply preserves_bind (keeps_map_user_init_stack closed _ _)
  intro phys
  exact preserves_bind (keeps_setup_abi_stack _ _ _ _ _ _ _ _) fun _ => preserves_pure _

theorem build_elf_task_begins (data argv0 : Bytes) (seed : BitVec 64) :
    BeginsWith (1 + stackPages)
      (buildElfTask (PageSupply.pageAllocator image) data argv0 seed) := by
  apply alloc_kernel_stack_begins.bind
  intro guardPhys Inv closed
  apply preserves_bind (keeps_load_exec_image closed _ _ _ _ _)
  intro exec
  exact preserves_bind (keeps_write_words _ _) fun _ => preserves_pure _

theorem build_fork_task_begins (parentPt rip rsp : Nat) (registers : ForkRegisters) :
    BeginsWith (1 + stackPages)
      (buildForkTask (PageSupply.pageAllocator image) parentPt rip rsp registers) := by
  apply alloc_kernel_stack_begins.bind
  intro guardPhys Inv closed
  apply preserves_bind (keeps_clone_user_page_table closed _)
  intro childPt
  exact preserves_bind (keeps_write_words _ _) fun _ => preserves_pure _

section

variable {system : System (PageSupply image)}

theorem failed_spawn_state {build : Paging (PageSupply image) TaskFrames}
    {request : TaskFrames → Option Kernel.SpawnRequest}
    (failed : (system.spawn build request).2 = none) :
    (system.spawn build request).1 = { system with space := (build system.space).2 } := by
  unfold System.spawn at failed ⊢
  cases outcome : build system.space with
  | mk result space =>
      rw [outcome] at failed
      cases result with
      | none => rfl
      | some frames =>
          dsimp only at failed ⊢
          cases asked : request frames with
          | none => rfl
          | some wanted =>
              rw [asked] at failed
              dsimp only at failed ⊢
              unfold System.enroll at failed ⊢
              dsimp only at failed ⊢
              cases found : system.kernel.firstVacant with
              | none => rfl
              | some slot =>
                  rw [found] at failed
                  cases failed

theorem undone_iff_free (space : PhysicalSpace (PageSupply image)) :
    CreationUndone system { system with space := space } ↔
      freeFrames space = freeFrames system.space :=
  ⟨CreationUndone.frames, fun same => ⟨rfl, rfl, rfl, rfl, same⟩⟩

theorem failed_spawn_undone_iff {build : Paging (PageSupply image) TaskFrames}
    {request : TaskFrames → Option Kernel.SpawnRequest} {pages : Nat}
    (begins : BeginsWith pages build) (failed : (system.spawn build request).2 = none) :
    CreationUndone system (system.spawn build request).1 ↔
      system.space.store.allocPages pages = none := by
  rw [failed_spawn_state failed, undone_iff_free, begins.free_iff]

theorem failed_execve_undone_iff {data argv0 : Bytes} {argv envp : List Bytes} {seed : BitVec 64}
    (failed : (system.execveCurrent (PageSupply.pageAllocator image) data argv0 argv envp
      seed).2 = none) :
    CreationUndone system
        (system.execveCurrent (PageSupply.pageAllocator image) data argv0 argv envp seed).1 ↔
      system.space.store.allocPages 1 = none := by
  unfold System.execveCurrent at failed ⊢
  have begins : BeginsWith 1 (loadExecImage (PageSupply.pageAllocator image) data argv0 argv envp
      seed) := load_exec_image_begins data argv0 argv envp seed
  have free := begins.free_iff system.space
  cases outcome : loadExecImage (PageSupply.pageAllocator image) data argv0 argv envp seed
    system.space with
  | mk result space =>
      rw [outcome] at free
      rw [outcome] at failed
      cases result with
      | none =>
          rw [undone_iff_free]
          exact free
      | some exec =>
          dsimp only at failed ⊢
          cases present : system.kernel.currentTask with
          | none =>
              dsimp only
              rw [undone_iff_free]
              exact free
          | some task =>
              rw [present] at failed
              cases failed

theorem failed_fork_undone_iff {rip rsp : Nat} {registers : ForkRegisters} {fsBase : Nat}
    (failed : (system.spawnFork (PageSupply.pageAllocator image) rip rsp registers
      fsBase).2 = none) :
    CreationUndone system
        (system.spawnFork (PageSupply.pageAllocator image) rip rsp registers fsBase).1 ↔
      system.kernel.currentTask = none ∨
        system.space.store.allocPages (1 + stackPages) = none := by
  unfold System.spawnFork at failed ⊢
  cases present : system.kernel.currentTask with
  | none => exact ⟨fun _ => .inl rfl, fun _ => CreationUndone.refl system⟩
  | some task =>
      rw [present] at failed
      dsimp only at failed ⊢
      rw [failed_spawn_undone_iff (build_fork_task_begins _ rip rsp registers) failed]
      exact ⟨.inr, fun either => either.resolve_left (by simp)⟩

/-- In every state, for every program, file and argument list. -/
theorem failed_creation_undone_iff (system : System (PageSupply image)) :
    (∀ prog, (system.spawnUser (PageSupply.pageAllocator image) prog).2 = none →
      (CreationUndone system (system.spawnUser (PageSupply.pageAllocator image) prog).1 ↔
        (prog.length ≤ pageSize → system.space.store.allocPages (1 + stackPages) = none))) ∧
    (∀ data argv0 seed,
      (system.spawnElf (PageSupply.pageAllocator image) data argv0 seed).2 = none →
      (CreationUndone system
          (system.spawnElf (PageSupply.pageAllocator image) data argv0 seed).1 ↔
        system.space.store.allocPages (1 + stackPages) = none)) ∧
    (∀ rip rsp registers fsBase,
      (system.spawnFork (PageSupply.pageAllocator image) rip rsp registers fsBase).2 = none →
      (CreationUndone system
          (system.spawnFork (PageSupply.pageAllocator image) rip rsp registers fsBase).1 ↔
        system.kernel.currentTask = none ∨
          system.space.store.allocPages (1 + stackPages) = none)) ∧
    ∀ data argv0 argv envp seed,
      (system.execveCurrent (PageSupply.pageAllocator image) data argv0 argv envp seed).2 = none →
      (CreationUndone system
          (system.execveCurrent (PageSupply.pageAllocator image) data argv0 argv envp seed).1 ↔
        system.space.store.allocPages 1 = none) := by
  refine ⟨?_, ?_, fun _ _ _ _ failed => failed_fork_undone_iff failed,
    fun _ _ _ _ _ failed => failed_execve_undone_iff failed⟩
  · intro prog failed
    unfold System.spawnUser at failed ⊢
    by_cases long : pageSize < prog.length
    · rw [if_pos long]
      exact ⟨fun _ short => absurd long (not_lt.mpr short), fun _ => CreationUndone.refl system⟩
    · rw [if_neg long] at failed ⊢
      rw [failed_spawn_undone_iff (build_user_task_begins prog) failed]
      exact ⟨fun done _ => done, fun done => done (not_lt.mp long)⟩
  · intro data argv0 seed failed
    exact failed_spawn_undone_iff (build_elf_task_begins data argv0 seed) failed

end

def idleSystem (supply : PageSupply smallImage) : System (PageSupply smallImage) where
  kernel := boot
  space := ⟨fun _ => 0#64, supply⟩

def bareElf : Bytes := onePageElf.set 56 0#8

/-- A tick has switched to the first kernel task, the shell. -/
def shellSystem (supply : PageSupply smallImage) : System (PageSupply smallImage) :=
  let spawned := ((idleSystem supply).spawnFn (PageSupply.pageAllocator smallImage) 0x101000#64).1
  { spawned with kernel := { spawned.kernel with current := firstSlot } }

/-- The shell runs the file `/a`. It passes the test before the call and is refused
after the kernel stack and the root are taken. -/
theorem refused_file_takes_frames :
    isElf bareElf = true ∧
      ((shellSystem smallSupply).spawnElf (PageSupply.pageAllocator smallImage) bareElf
        [0x2F#8, 0x61#8] 0#64).2 = none ∧
      ¬CreationUndone (shellSystem smallSupply)
        ((shellSystem smallSupply).spawnElf (PageSupply.pageAllocator smallImage) bareElf
          [0x2F#8, 0x61#8] 0#64).1 := by
  refine ⟨by decide +kernel, by decide +kernel, ?_⟩
  intro undone
  have frames := undone.frames
  revert frames
  decide +kernel

/-- Without a free frame every call is refused before it takes anything. -/
theorem exhausted_creation_undone :
    CreationUndone (idleSystem fullSupply)
        ((idleSystem fullSupply).spawnUser (PageSupply.pageAllocator smallImage) [0xF4#8]).1 ∧
      CreationUndone (idleSystem fullSupply)
        ((idleSystem fullSupply).spawnElf (PageSupply.pageAllocator smallImage) onePageElf []
          0#64).1 ∧
      CreationUndone (suppliedSystem fullSupply)
        ((suppliedSystem fullSupply).execveCurrent (PageSupply.pageAllocator smallImage) onePageElf
          [] [] [] 0#64).1 := by
  have stack : fullSupply.allocPages (1 + stackPages) = none :=
    Option.isNone_iff_eq_none.mp (by decide +kernel)
  have root : fullSupply.allocPages 1 = none :=
    Option.isNone_iff_eq_none.mp (by decide +kernel)
  obtain ⟨spawnUser, spawnElf, -, -⟩ := failed_creation_undone_iff (idleSystem fullSupply)
  obtain ⟨-, -, -, execve⟩ := failed_creation_undone_iff (suppliedSystem fullSupply)
  exact ⟨(spawnUser [0xF4#8] (by decide +kernel)).mpr fun _ => stack,
    (spawnElf onePageElf [] 0#64 (by decide +kernel)).mpr stack,
    (execve onePageElf [] [] [] 0#64 (by decide +kernel)).mpr root⟩

end Ferrugem.FailedCreation
