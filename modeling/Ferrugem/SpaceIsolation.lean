import Ferrugem.Library.EventSystem
import Ferrugem.AddressSpaceSafety
import Ferrugem.AddressTranslation
import Ferrugem.KernelTablesBoot

/-!
# Isolation of address spaces

The system in which any tasks create, copy, replace and grow address spaces in
any order, between user stores, kernel stack stores and whatever else the
kernel does to its tasks. The invariant gives each user task the name of the
space it runs in; no two of them have the same one. Isolation, which is about
translations through the tables in memory, is read off the owners.
-/

namespace Ferrugem.SpaceIsolation

open Ferrugem.ProcessModel Ferrugem.SchedulerModel Ferrugem.PagingModel
open Ferrugem.ElfLoaderModel Ferrugem.AddressSpaceModel Ferrugem.PageOwnership
open Ferrugem.PagingSafety Ferrugem.AddressSpaceSafety Ferrugem.AddressTranslation
open Ferrugem.KernelTablesBoot

set_option autoImplicit false

/-- The root that `schedule` loads for a task. -/
def rootOf (image : KernelImage) (task : Task) : Nat :=
  if task.pageTablePhys ≠ 0 then task.pageTablePhys else image.pml4

/-- The frames of a task's kernel stack with the guard page below it. The idle
task has none: it runs on the boot stack, in the image. -/
def InKernelStack (task : Task) (frame : Nat) : Prop :=
  task.stackTop ≠ 0 ∧ task.stackTop ≤ frame * pageSize + guardSize + stackSize ∧
    frame * pageSize < task.stackTop

structure Isolated {Store : Type} (image : KernelImage) (system : System Store) : Prop where
  apart : ∀ slot other task neighbour, system.kernel.tasks slot = some task →
    system.kernel.tasks other = some neighbour → slot ≠ other →
    ∀ frame, UserMaps system.space.memory (rootOf image task) frame →
      ¬UserMaps system.space.memory (rootOf image neighbour) frame
  tables : ∀ slot other task neighbour, system.kernel.tasks slot = some task →
    system.kernel.tasks other = some neighbour →
    ∀ frame, UserMaps system.space.memory (rootOf image task) frame →
      ∀ level table, TableOf system.space.memory (rootOf image neighbour) level table →
        table / pageSize ≠ frame
  kernelTables : ∀ slot task, system.kernel.tasks slot = some task →
    ∀ frame, UserMaps system.space.memory (rootOf image task) frame →
      ∀ level table, TableOf system.space.memory image.pml4 level table →
        table / pageSize ≠ frame
  kernelStacks : ∀ slot other task neighbour, system.kernel.tasks slot = some task →
    system.kernel.tasks other = some neighbour →
    ∀ frame, UserMaps system.space.memory (rootOf image task) frame →
      ¬InKernelStack neighbour frame
  kernelImage : ∀ slot task, system.kernel.tasks slot = some task →
    ∀ frame, UserMaps system.space.memory (rootOf image task) frame → ¬image.Has frame
  kernelEntry : ∀ slot task, system.kernel.tasks slot = some task → task.isUser = true →
    entryAt system.space.memory task.pageTablePhys 0 =
      entryAt system.space.memory image.pml4 0 &&& ~~~pageUser

/-- What the rest of the kernel does to the tasks: it may schedule, end, reap
and change them, but creates none and leaves their spaces and stacks alone. -/
structure KernelChange where
  apply : Kernel → Kernel
  keeps : ∀ kernel slot task, (apply kernel).tasks slot = some task →
    ∃ before, kernel.tasks slot = some before ∧ before.isUser = task.isUser ∧
      before.pageTablePhys = task.pageTablePhys ∧ before.stackTop = task.stackTop

inductive SpaceCall where
  | spawnFn (entry : BitVec 64)
  | spawnUser (prog : Bytes)
  | spawnElf (data argv0 : Bytes) (seed : BitVec 64)
  | spawnFork (rip rsp : Nat) (registers : ForkRegisters) (fsBase : Nat)
  | execve (data argv0 : Bytes) (argv envp : List Bytes) (seed : BitVec 64)
  | brk (addr : Nat)
  | mmap (addr len prot flags : Nat)
  | pageFault (va : Nat)
  | userStore (va : Nat) (value : BitVec 64)
  | stackStore (slot : Slot) (depth : Fin stackSize) (value : BitVec 64)
  | kernelAlloc (pages : Nat)
  | elsewhere (change : KernelChange)

section

variable {image : KernelImage} {Store : Type} (allocator : PageAllocator image Store)

/-- A store of the current task in user mode, through its tables. -/
def userStore (image : KernelImage) (system : System Store) (va : Nat) (value : BitVec 64) :
    System Store :=
  match system.kernel.currentTask with
  | none => system
  | some task =>
      match userTranslate system.space.memory (rootOf image task) va with
      | none => system
      | some address =>
          { system with
            space := { system.space with memory := system.space.memory.store address value } }

/-- A store to a kernel stack, by code that runs on it or switches to it. -/
def stackStore (system : System Store) (slot : Slot) (depth : Fin stackSize)
    (value : BitVec 64) : System Store :=
  match system.kernel.tasks slot with
  | none => system
  | some task =>
      if task.stackTop = 0 then system
      else
        { system with
          space :=
            { system.space with
              memory := system.space.memory.store (task.stackTop - 1 - depth.val) value } }

/-- Only a system call of a user task reaches `spawn_fork` and `execve_current`. -/
def spaceStep (system : System Store) : SpaceCall → System Store
  | .spawnFn entry => (system.spawnFn allocator entry).1
  | .spawnUser prog => (system.spawnUser allocator prog).1
  | .spawnElf data argv0 seed => (system.spawnElf allocator data argv0 seed).1
  | .spawnFork rip rsp registers fsBase =>
      if system.kernel.currentTask.any Task.isUser then
        (system.spawnFork allocator rip rsp registers fsBase).1
      else system
  | .execve data argv0 argv envp seed =>
      if system.kernel.currentTask.any Task.isUser then
        (system.execveCurrent allocator data argv0 argv envp seed).1
      else system
  | .brk addr => (system.sysBrk allocator addr).1
  | .mmap addr len prot flags => (system.sysMmap allocator addr len prot flags).1
  | .pageFault va => (system.handleUserPageFault allocator va).1
  | .userStore va value => userStore image system va value
  | .stackStore slot depth value => stackStore system slot depth value
  | .kernelAlloc pages => { system with space := (allocPages allocator pages system.space).2 }
  | .elsewhere change => { system with kernel := change.apply system.kernel }

def spaceSystem (ram : WordMemory) (store : Store) :
    EventSystem (System Store) SpaceCall Unit where
  init := { kernel := boot, space := bootSpace image ram store }
  step := fun system call => (spaceStep allocator system call, none)

end

/-- The kernel stack whose top is `top`. -/
structure OwnsStack (owners : Owners) (top : Nat) : Prop where
  aligned : top % pageSize = 0
  room : guardSize + stackSize ≤ top
  owned : ∀ frame, top ≤ frame * pageSize + guardSize + stackSize → frame * pageSize < top →
    owners frame = .stack

structure TaskOwned (owners : Owners) (name : Nat) (task : Task) : Prop where
  root : task.isUser = true → IsTable owners (.process name) 4 task.pageTablePhys
  known : task.isUser = true → owners name ≠ .unowned
  kernelTask : task.isUser = false → task.pageTablePhys = 0
  stack : task.stackTop ≠ 0 → OwnsStack owners task.stackTop

structure TasksOwned (owners : Owners) (names : Slot → Nat) (tasks : Slot → Option Task) :
    Prop where
  each : ∀ slot task, tasks slot = some task → TaskOwned owners (names slot) task
  distinct : ∀ slot other task neighbour, tasks slot = some task →
    tasks other = some neighbour → task.isUser = true → neighbour.isUser = true →
    slot ≠ other → names slot ≠ names other

theorem known_kept {owners later : Owners} (grown : owners ≤ later) {frame : Nat}
    (known : owners frame ≠ .unowned) : later frame ≠ .unowned := by
  rw [owner_kept grown rfl known]
  exact known

theorem TaskOwned.mono {owners later : Owners} (grown : owners ≤ later) {name : Nat}
    {task : Task} (owned : TaskOwned owners name task) : TaskOwned later name task where
  root := fun user => (owned.root user).mono grown
  known := fun user => known_kept grown (owned.known user)
  kernelTask := owned.kernelTask
  stack := fun has =>
    { owned.stack has with
      owned := fun frame low high =>
        owner_kept grown ((owned.stack has).owned frame low high) (by simp) }

theorem TasksOwned.mono {owners later : Owners} (grown : owners ≤ later) {names : Slot → Nat}
    {tasks : Slot → Option Task} (owned : TasksOwned owners names tasks) :
    TasksOwned later names tasks where
  each := fun slot task present => (owned.each slot task present).mono grown
  distinct := owned.distinct

theorem tasks_owned_update {owners : Owners} {names : Slot → Nat} {tasks : Slot → Option Task}
    (owned : TasksOwned owners names tasks) {slot : Slot} {name : Nat} {task : Task}
    (new : TaskOwned owners name task)
    (fresh : task.isUser = true → ∀ other neighbour, other ≠ slot →
      tasks other = some neighbour → neighbour.isUser = true → names other ≠ name) :
    TasksOwned owners (Function.update names slot name)
      (Function.update tasks slot (some task)) where
  each := by
    intro other neighbour present
    by_cases same : other = slot
    · subst same
      rw [Function.update_self] at present ⊢
      cases present
      exact new
    · rw [Function.update_of_ne same] at present ⊢
      exact owned.each other neighbour present
  distinct := by
    intro first second one two presentOne presentTwo userOne userTwo different
    by_cases here : first = slot
    · subst here
      rw [Function.update_self] at presentOne ⊢
      rw [Function.update_of_ne different.symm] at presentTwo ⊢
      cases presentOne
      exact (fresh userOne second two different.symm presentTwo userTwo).symm
    · rw [Function.update_of_ne here] at presentOne ⊢
      by_cases there : second = slot
      · subst there
        rw [Function.update_self] at presentTwo ⊢
        cases presentTwo
        exact fresh userTwo first one here presentOne userOne
      · rw [Function.update_of_ne there] at presentTwo ⊢
        exact owned.distinct first second one two presentOne presentTwo userOne userTwo different

theorem tasks_owned_keeps {owners : Owners} {names : Slot → Nat}
    {before after : Slot → Option Task} (owned : TasksOwned owners names before)
    (keeps : ∀ slot task, after slot = some task → ∃ old, before slot = some old ∧
      old.isUser = task.isUser ∧ old.pageTablePhys = task.pageTablePhys ∧
        old.stackTop = task.stackTop) :
    TasksOwned owners names after where
  each := by
    intro slot task present
    obtain ⟨old, was, user, pageTable, stackTop⟩ := keeps slot task present
    have each := owned.each slot old was
    constructor
    · rw [← user, ← pageTable]
      exact each.root
    · rw [← user]
      exact each.known
    · rw [← user, ← pageTable]
      exact each.kernelTask
    · rw [← stackTop]
      exact each.stack
  distinct := by
    intro slot other task neighbour present there userOne userTwo different
    obtain ⟨old, was, user, _⟩ := keeps slot task present
    obtain ⟨past, stood, userThere, _⟩ := keeps other neighbour there
    exact owned.distinct slot other old past was stood (user.trans userOne)
      (userThere.trans userTwo) different

section

variable {image : KernelImage} {Store : Type} {allocator : PageAllocator image Store}
variable {owners later : Owners} {names : Slot → Nat} {system : System Store}
variable {Rel : Owners → PhysicalSpace Store → PhysicalSpace Store → Prop}
variable {kernel : Kernel} {first second : PhysicalSpace Store}

structure OwnedBy (allocator : PageAllocator image Store) (owners : Owners) (names : Slot → Nat)
    (system : System Store) : Prop where
  booted : bootOwners image ≤ owners
  space : SpaceOwned allocator owners system.space
  tasks : TasksOwned owners names system.kernel.tasks

def SystemOwned (allocator : PageAllocator image Store) (system : System Store) : Prop :=
  ∃ owners names, OwnedBy allocator owners names system

structure RelatedBy (image : KernelImage)
    (Rel : Owners → PhysicalSpace Store → PhysicalSpace Store → Prop) (owners : Owners)
    (names : Slot → Nat) (kernel : Kernel) (first second : PhysicalSpace Store) : Prop where
  booted : bootOwners image ≤ owners
  space : Rel owners first second
  tasks : TasksOwned owners names kernel.tasks

def SystemsRelated (image : KernelImage)
    (Rel : Owners → PhysicalSpace Store → PhysicalSpace Store → Prop)
    (first second : System Store) : Prop :=
  second.kernel = first.kernel ∧
    ∃ owners names, RelatedBy image Rel owners names first.kernel first.space second.space

theorem RelatedBy.systems (related : RelatedBy image Rel owners names kernel first second) :
    SystemsRelated image Rel { kernel := kernel, space := first }
      { kernel := kernel, space := second } :=
  ⟨rfl, owners, names, related⟩

theorem related_outcomes {Value : Type} {prog : Paging Store Value}
    {Post : Owners → Value → Prop} (related : RelatedBy image Rel owners names kernel first second)
    (twin : Fallible.Twin Rel owners prog Post) :
    ∃ result space twinSpace later, prog first = (result, space) ∧
      prog second = (result, twinSpace) ∧ owners ≤ later ∧
      RelatedBy image Rel later names kernel space twinSpace ∧
      ∀ value, result = some value → Post later value := by
  obtain ⟨same, later, grown, kept, post⟩ := twin first second related.space
  refine ⟨(prog first).1, (prog first).2, (prog second).2, later, rfl, ?_, grown, ?_, post⟩
  · rw [← same]
  · exact ⟨le_trans related.booted grown, kept, related.tasks.mono grown⟩

theorem related_kernel (related : RelatedBy image Rel owners names kernel first second)
    {after : Kernel}
    (keeps : ∀ slot task, after.tasks slot = some task →
      ∃ old, kernel.tasks slot = some old ∧ old.isUser = task.isUser ∧
        old.pageTablePhys = task.pageTablePhys ∧ old.stackTop = task.stackTop) :
    RelatedBy image Rel owners names after first second where
  booted := related.booted
  space := related.space
  tasks := tasks_owned_keeps related.tasks keeps

theorem modify_current_tasks (kernel : Kernel) {change : Task → Task}
    (same : ∀ task, (change task).isUser = task.isUser ∧
      (change task).pageTablePhys = task.pageTablePhys ∧ (change task).stackTop = task.stackTop)
    {slot : Slot} {task : Task} (present : (kernel.modifyCurrent change).tasks slot = some task) :
    ∃ old, kernel.tasks slot = some old ∧ old.isUser = task.isUser ∧
      old.pageTablePhys = task.pageTablePhys ∧ old.stackTop = task.stackTop := by
  unfold Kernel.modifyCurrent at present
  cases current : kernel.currentTask with
  | none =>
      rw [current] at present
      exact ⟨task, present, rfl, rfl, rfl⟩
  | some running =>
      rw [current] at present
      dsimp only [Kernel.setTask] at present
      by_cases here : slot = kernel.current
      · subst here
        rw [Function.update_self] at present
        cases present
        obtain ⟨user, pageTable, stackTop⟩ := same running
        exact ⟨running, current, user.symm, pageTable.symm, stackTop.symm⟩
      · rw [Function.update_of_ne here] at present
        exact ⟨task, present, rfl, rfl, rfl⟩

theorem related_set_heap_brk (related : RelatedBy image Rel owners names kernel first second)
    (value : Nat) : RelatedBy image Rel owners names (setHeapBrk kernel value) first second :=
  related_kernel related fun _ _ present =>
    @modify_current_tasks kernel (fun task => { task with heapBrk := value })
      (fun _ => ⟨rfl, rfl, rfl⟩) _ _ present

theorem current_root (owned : TasksOwned owners names kernel.tasks)
    (has : currentPageTable kernel ≠ 0) :
    IsTable owners (.process (names kernel.current)) 4
      (currentPageTable kernel) := by
  unfold currentPageTable at has ⊢
  cases current : kernel.currentTask with
  | none =>
      rw [current] at has
      exact absurd rfl has
  | some task =>
      rw [current] at has
      have each := owned.each kernel.current task current
      cases user : task.isUser with
      | true => exact each.root user
      | false => exact absurd (each.kernelTask user) has

theorem current_user_root (owned : TasksOwned owners names kernel.tasks)
    (user : kernel.currentTask.any Task.isUser = true) :
    IsTable owners (.process (names kernel.current)) 4
      (currentPageTable kernel) := by
  unfold currentPageTable
  cases current : kernel.currentTask with
  | none =>
      rw [current] at user
      cases user
  | some task =>
      rw [current] at user
      exact (owned.each kernel.current task current).root user

def ChildOwned (before later : Owners) (child : Task) : Prop :=
  ∃ name, TaskOwned later name child ∧ (child.isUser = true → before name = .unowned)

theorem NewStack.owns_stack {frames : TaskFrames} (new : NewStack later frames) :
    OwnsStack later frames.stackTop := by
  have aligned := new.aligned
  constructor
  · simp only [TaskFrames.stackTop, guardSize, stackSize, stackPages, pageSize] at aligned ⊢
    omega
  · unfold TaskFrames.stackTop
    omega
  · intro frame low high
    have owned := new.owned (frame - frames.guardPhys / pageSize)
    simp only [TaskFrames.stackTop, guardSize, stackSize, stackPages, pageSize] at aligned low high
    simp only [stackPages, pageSize] at owned
    rw [Nat.add_sub_cancel' (by omega)] at owned
    exact owned (by omega)

theorem child_owned_user {frames : TaskFrames} (built : TaskBuilt owners later frames)
    {child : Task} (user : child.isUser = true) (pageTable : child.pageTablePhys = frames.pageTable)
    (stackTop : child.stackTop = frames.stackTop) : ChildOwned owners later child := by
  obtain ⟨stack, name, new⟩ := built
  refine ⟨name, ⟨?_, fun _ => new.known, ?_, ?_⟩, fun _ => new.fresh⟩
  · intro _
    rw [pageTable]
    exact new.root
  · intro kernelTask
    rw [user] at kernelTask
    cases kernelTask
  · intro _
    rw [stackTop]
    exact NewStack.owns_stack stack

theorem child_owned_kernel {frames : TaskFrames} (stack : NewStack later frames) {child : Task}
    (kernelTask : child.isUser = false) (pageTable : child.pageTablePhys = 0)
    (stackTop : child.stackTop = frames.stackTop) : ChildOwned owners later child := by
  have never (user : child.isUser = true) : False := by
    rw [kernelTask] at user
    cases user
  refine ⟨0, ⟨fun user => (never user).elim, fun user => (never user).elim, fun _ => pageTable, ?_⟩,
    fun user => (never user).elim⟩
  intro _
  rw [stackTop]
  exact NewStack.owns_stack stack

theorem fresh_name (owned : TasksOwned owners names kernel.tasks) {name : Nat}
    (fresh : owners name = .unowned) (other : Slot) (neighbour : Task)
    (present : kernel.tasks other = some neighbour) (user : neighbour.isUser = true) :
    names other ≠ name := by
  intro same
  apply (owned.each other neighbour present).known user
  rw [same]
  exact fresh

theorem related_enroll (tasks : TasksOwned owners names kernel.tasks)
    (kept : RelatedBy image Rel later names kernel first second) {request : Kernel.SpawnRequest}
    (child : ChildOwned owners later request.child) :
    SystemsRelated image Rel (System.enroll { kernel := kernel, space := first } request).1
      (System.enroll { kernel := kernel, space := second } request).1 := by
  unfold System.enroll
  dsimp only
  cases kernel.firstVacant with
  | none => exact kept.systems
  | some slot =>
      obtain ⟨name, new, fresh⟩ := child
      refine ⟨rfl, later, Function.update names slot name, kept.booted, kept.space, ?_⟩
      apply tasks_owned_update kept.tasks
      · exact { new with }
      · intro user other neighbour _ present neighbourUser
        exact fresh_name tasks (fresh user) other neighbour present neighbourUser

theorem related_spawn (related : RelatedBy image Rel owners names kernel first second)
    {build : Paging Store TaskFrames} {request : TaskFrames → Option Kernel.SpawnRequest}
    (twin : Fallible.Twin Rel owners build fun later frames =>
      ∀ made, request frames = some made → ChildOwned owners later made.child) :
    SystemsRelated image Rel (System.spawn { kernel := kernel, space := first } build request).1
      (System.spawn { kernel := kernel, space := second } build request).1 := by
  obtain ⟨result, space, twinSpace, last, ran, twinRan, _, kept, post⟩ :=
    related_outcomes related twin
  unfold System.spawn
  dsimp only
  rw [ran, twinRan]
  cases result with
  | none => exact kept.systems
  | some frames =>
      dsimp only
      cases requested : request frames with
      | none => exact kept.systems
      | some made => exact related_enroll related.tasks kept (post frames rfl made requested)

theorem owned_spawn_user (owned : OwnedBy allocator owners names system) (prog : Bytes) :
    SystemOwned allocator (system.spawnUser allocator prog).1 := by
  unfold System.spawnUser
  split_ifs with large
  · exact ⟨owners, names, owned⟩
  · have alone : RelatedBy image (Fallible.Alone (SpaceOwned allocator)) owners names system.kernel
        system.space system.space := ⟨owned.booted, ⟨rfl, owned.space⟩, owned.tasks⟩
    obtain ⟨_, last, others, kept⟩ := @related_spawn _ _ _ _ _ _ _ _ alone
      (buildUserTask allocator prog) (fun frames => some (system.kernel.spawnUserRequest
        frames.guardPhys frames.stackTop frames.pageTable frames.heapBrk)) (by
        apply Fallible.safe_iff_twin.mp
        apply Fallible.safe_mono (safe_build_user_task (by omega))
        intro later frames _ built made same
        cases same
        exact child_owned_user built rfl rfl rfl)
    exact ⟨last, others, kept.booted, kept.space.2, kept.tasks⟩

theorem twins_spawn_elf
    (related : RelatedBy image (TwinsOwned allocator) owners names kernel first second)
    (data argv0 : Bytes) (seed : BitVec 64) :
    SystemsRelated image (TwinsOwned allocator)
      (System.spawnElf allocator { kernel := kernel, space := first } data argv0 seed).1
      (System.spawnElf allocator { kernel := kernel, space := second } data argv0 seed).1 := by
  apply related_spawn related
  apply Fallible.twin_mono twin_build_elf_task
  intro later frames _ built made same
  cases same
  exact child_owned_user built rfl rfl rfl

theorem twins_spawn_fork
    (related : RelatedBy image (TwinsOwned allocator) owners names kernel first second)
    (user : kernel.currentTask.any Task.isUser = true)
    (rip rsp : Nat) (registers : ForkRegisters) (fsBase : Nat) :
    SystemsRelated image (TwinsOwned allocator)
      (System.spawnFork allocator { kernel := kernel, space := first } rip rsp registers fsBase).1
      (System.spawnFork allocator { kernel := kernel, space := second } rip rsp registers
        fsBase).1 := by
  unfold System.spawnFork
  dsimp only
  cases kernel.currentTask with
  | none => exact related.systems
  | some task =>
      apply related_spawn related
      apply Fallible.twin_mono (twin_build_fork_task (current_user_root related.tasks user))
      intro later frames _ built made same
      unfold Kernel.spawnForkRequest at same
      obtain ⟨parent, _, rfl⟩ := Option.map_eq_some_iff.mp same
      exact child_owned_user built rfl rfl rfl

theorem twins_spawn_fn
    (related : RelatedBy image (TwinsOwned allocator) owners names kernel first second)
    (entry : BitVec 64) :
    SystemsRelated image (TwinsOwned allocator)
      (System.spawnFn allocator { kernel := kernel, space := first } entry).1
      (System.spawnFn allocator { kernel := kernel, space := second } entry).1 := by
  unfold System.spawnFn
  dsimp only
  cases kernel.firstVacant with
  | none => exact related.systems
  | some slot =>
      apply related_spawn related
      apply Fallible.twin_mono twin_build_kernel_task
      rintro later frames _ ⟨stack, _⟩ made same
      cases same
      exact child_owned_kernel stack rfl rfl rfl

/-- `execve_current` moves the current task to a new space. -/
theorem tasks_owned_execve (owned : TasksOwned owners names kernel.tasks)
    (user : kernel.currentTask.any Task.isUser = true) (grown : owners ≤ later)
    {name pageTable : Nat} (new : NewSpace owners later name pageTable) (heapStart : Nat) :
    TasksOwned later (Function.update names kernel.current name)
      (kernel.execveTask pageTable heapStart).tasks := by
  unfold Kernel.execveTask Kernel.modifyCurrent
  cases current : kernel.currentTask with
  | none =>
      rw [current] at user
      cases user
  | some task =>
      have each := (owned.each kernel.current task current).mono grown
      apply tasks_owned_update (owned.mono grown)
      · constructor
        · exact fun _ => new.root
        · exact fun _ => new.known
        · intro kernelTask
          rw [current] at user
          change task.isUser = true at user
          change task.isUser = false at kernelTask
          rw [user] at kernelTask
          cases kernelTask
        · exact each.stack
      · intro _ other neighbour _ present neighbourUser
        exact fresh_name owned new.fresh other neighbour present neighbourUser

theorem twins_execve
    (related : RelatedBy image (TwinsOwned allocator) owners names kernel first second)
    (user : kernel.currentTask.any Task.isUser = true)
    (data argv0 : Bytes) (argv envp : List Bytes) (seed : BitVec 64) :
    SystemsRelated image (TwinsOwned allocator)
      (System.execveCurrent allocator { kernel := kernel, space := first } data argv0 argv envp
        seed).1
      (System.execveCurrent allocator { kernel := kernel, space := second } data argv0 argv envp
        seed).1 := by
  unfold System.execveCurrent
  dsimp only
  obtain ⟨result, space, twinSpace, last, ran, twinRan, grown, kept, post⟩ :=
    related_outcomes related (@twin_load_exec_image _ _ allocator _ data argv0 argv envp seed)
  rw [ran, twinRan]
  cases result with
  | none => exact kept.systems
  | some exec =>
      obtain ⟨name, new⟩ := post exec rfl
      dsimp only
      cases present : kernel.currentTask with
      | none => exact kept.systems
      | some task =>
          exact ⟨rfl, last, _, kept.booted, kept.space,
            tasks_owned_execve related.tasks user grown new exec.heapStart⟩

theorem twins_map_fresh
    (related : RelatedBy image (TwinsOwned allocator) owners names kernel first second)
    (has : currentPageTable kernel ≠ 0) (base : Nat) (prot : BitVec 32) (count : Nat) :
    ∃ result space twinSpace later,
      mapFreshPages allocator (currentPageTable kernel) base prot count first = (result, space) ∧
      mapFreshPages allocator (currentPageTable kernel) base prot count second =
        (result, twinSpace) ∧
      RelatedBy image (TwinsOwned allocator) later names kernel space twinSpace := by
  obtain ⟨result, space, twinSpace, later, ran, twinRan, _, kept, _⟩ := related_outcomes related
    (@twin_map_fresh_pages _ _ allocator _ _ _ base count prot (current_root related.tasks has))
  exact ⟨result, space, twinSpace, later, ran, twinRan, kept⟩

theorem twins_sys_brk
    (related : RelatedBy image (TwinsOwned allocator) owners names kernel first second)
    (addr : Nat) :
    SystemsRelated image (TwinsOwned allocator)
      (System.sysBrk allocator { kernel := kernel, space := first } addr).1
      (System.sysBrk allocator { kernel := kernel, space := second } addr).1 := by
  unfold System.sysBrk
  dsimp only
  split_ifs with query below
  · exact related.systems
  · exact (related_set_heap_brk related addr).systems
  · have has : currentPageTable kernel ≠ 0 := fun none => query (.inr none)
    obtain ⟨result, space, twinSpace, later, ran, twinRan, kept⟩ := twins_map_fresh related has
      (System.roundUp (currentHeapBrk kernel)) (protRead ||| protWrite ||| protUser)
      ((System.roundUp addr - System.roundUp (currentHeapBrk kernel)) / pageSize)
    rw [ran, twinRan]
    cases result with
    | none => exact kept.systems
    | some _ => exact (related_set_heap_brk kept addr).systems

theorem twins_sys_mmap
    (related : RelatedBy image (TwinsOwned allocator) owners names kernel first second)
    (addr len prot flags : Nat) :
    SystemsRelated image (TwinsOwned allocator)
      (System.sysMmap allocator { kernel := kernel, space := first } addr len prot flags).1
      (System.sysMmap allocator { kernel := kernel, space := second } addr len prot flags).1 := by
  unfold System.sysMmap
  dsimp only
  generalize (if addr ≠ 0 ∧ userBaseVa ≤ addr then addr
    else System.roundUp (currentHeapBrk kernel)) = base
  by_cases empty : len = 0
  · rw [if_pos empty, if_pos empty]
    exact related.systems
  by_cases anonymous : (!flags.testBit System.mapAnonymousBit) = true
  · rw [if_neg empty, if_neg empty, if_pos anonymous, if_pos anonymous]
    exact related.systems
  by_cases has : currentPageTable kernel = 0
  · rw [if_neg empty, if_neg empty, if_neg anonymous, if_neg anonymous, if_pos has, if_pos has]
    exact related.systems
  · rw [if_neg empty, if_neg empty, if_neg anonymous, if_neg anonymous, if_neg has, if_neg has]
    obtain ⟨result, space, twinSpace, later, ran, twinRan, kept⟩ := twins_map_fresh related has
      base (System.mmapProt prot) ((len + 0xFFF) % wordLimit / pageSize)
    rw [ran, twinRan]
    cases result with
    | none => exact kept.systems
    | some _ =>
        dsimp only
        split_ifs
        · exact (related_set_heap_brk kept _).systems
        · exact kept.systems

theorem twins_page_fault
    (related : RelatedBy image (TwinsOwned allocator) owners names kernel first second)
    (va : Nat) :
    SystemsRelated image (TwinsOwned allocator)
      (System.handleUserPageFault allocator { kernel := kernel, space := first } va).1
      (System.handleUserPageFault allocator { kernel := kernel, space := second } va).1 := by
  unfold System.handleUserPageFault
  dsimp only
  split_ifs with none low
  · exact related.systems
  · exact related.systems
  · obtain ⟨result, space, twinSpace, later, ran, twinRan, _, kept, _⟩ := related_outcomes related
      (@twin_map_fresh_page _ _ allocator _ _ _ (pageStart va)
        (protRead ||| protWrite ||| protExec ||| protUser) (current_root related.tasks none))
    rw [ran, twinRan]
    cases result <;> exact kept.systems

theorem twins_plain_store
    (related : RelatedBy image (TwinsOwned allocator) owners names kernel first second)
    {address : Nat} (plain : ∀ tree level, owners (address / pageSize) ≠ .table tree level)
    (value : BitVec 64) :
    SystemsRelated image (TwinsOwned allocator)
      { kernel := kernel
        space := { first with memory := first.memory.store address value } }
      { kernel := kernel
        space := { second with memory := second.memory.store address value } } := by
  refine ⟨rfl, owners, names, related.booted, ?_, related.tasks⟩
  apply twins_memory related.space (WordMemory.store_pointwise address value)
  apply owned_memory related.space.owned
  intro word elsewhere
  apply WordMemory.store_changes
  rintro rfl
  apply elsewhere
  intro tree level
  rw [show address / 8 / 512 = address / pageSize by
    rw [Nat.div_div_eq_div_mul]
    rfl]
  exact plain tree level

theorem root_cases (owned : OwnedBy allocator owners names system) {slot : Slot} {task : Task}
    (present : system.kernel.tasks slot = some task) :
    rootOf image task = image.pml4 ∨
      (task.isUser = true ∧ IsTable owners (.process (names slot)) 4 (rootOf image task)) := by
  unfold rootOf
  split_ifs with has
  · have each := owned.tasks.each slot task present
    cases user : task.isUser with
    | true => exact .inr ⟨rfl, each.root user⟩
    | false => exact absurd (each.kernelTask user) has
  · exact .inl rfl

theorem user_maps_leaf (owned : OwnedBy allocator owners names system) {slot : Slot}
    {task : Task} (present : system.kernel.tasks slot = some task) {frame : Nat}
    (maps : UserMaps system.space.memory (rootOf image task) frame) :
    task.isUser = true ∧ owners frame = .leaf (names slot) := by
  rcases root_cases owned present with kernelRoot | ⟨user, root⟩
  · rw [kernelRoot] at maps
    exact absurd maps (kernel_maps_nothing owned.space frame)
  · exact ⟨user, user_maps_owner owned.space root maps⟩

theorem twins_translate
    (related : RelatedBy image (TwinsOwned allocator) owners names kernel first second)
    {slot : Slot} {task : Task} (present : kernel.tasks slot = some task) (va : Nat) :
    userTranslate second.memory (rootOf image task) va =
      userTranslate first.memory (rootOf image task) va := by
  have owned : OwnedBy allocator owners names { kernel := kernel, space := first } :=
    ⟨related.booted, related.space.owned, related.tasks⟩
  rcases root_cases owned present with kernelRoot | ⟨_, root⟩
  · rw [kernelRoot, kernel_translates_nothing related.space.owned,
      kernel_translates_nothing (twins_owned related.space)]
  · exact user_walk_twins related.space (le_refl 4) root

theorem twins_user_store
    (related : RelatedBy image (TwinsOwned allocator) owners names kernel first second)
    (va : Nat) (value : BitVec 64) :
    SystemsRelated image (TwinsOwned allocator)
      (userStore image { kernel := kernel, space := first } va value)
      (userStore image { kernel := kernel, space := second } va value) := by
  unfold userStore
  dsimp only
  cases current : kernel.currentTask with
  | none => exact related.systems
  | some task =>
      dsimp only
      rw [twins_translate related current va]
      cases translated : userTranslate first.memory (rootOf image task) va with
      | none => exact related.systems
      | some address =>
          have owned : OwnedBy allocator owners names { kernel := kernel, space := first } :=
            ⟨related.booted, related.space.owned, related.tasks⟩
          have leaf := (user_maps_leaf owned current ⟨va, address, translated, rfl⟩).2
          apply twins_plain_store related
          intro tree level
          rw [leaf]
          simp

theorem twins_stack_store
    (related : RelatedBy image (TwinsOwned allocator) owners names kernel first second)
    (slot : Slot) (depth : Fin stackSize) (value : BitVec 64) :
    SystemsRelated image (TwinsOwned allocator)
      (stackStore { kernel := kernel, space := first } slot depth value)
      (stackStore { kernel := kernel, space := second } slot depth value) := by
  unfold stackStore
  dsimp only
  cases present : kernel.tasks slot with
  | none => exact related.systems
  | some task =>
      dsimp only
      split_ifs with idle
      · exact related.systems
      · have stack := (related.tasks.each slot task present).stack idle
        have room := stack.room
        have aligned := stack.aligned
        have bound := depth.isLt
        have inside := stack.owned ((task.stackTop - 1 - depth.val) / pageSize)
        simp only [guardSize, stackSize, stackPages, pageSize] at room aligned bound inside
        apply twins_plain_store related
        intro tree level
        simp only [pageSize]
        rw [inside (by omega) (by omega)]
        simp

/-- Every page that the call maps is filled. Only a raw program gets a stack page
as `alloc_pages` returns it. -/
def FillsPages : SpaceCall → Prop
  | .spawnUser prog => pageSize < prog.length
  | _ => True

theorem twins_step {one two : System Store} (call : SpaceCall) (fills : FillsPages call)
    (twins : SystemsRelated image (TwinsOwned allocator) one two) :
    SystemsRelated image (TwinsOwned allocator) (spaceStep allocator one call)
      (spaceStep allocator two call) := by
  obtain ⟨_, first⟩ := one
  obtain ⟨kernel, second⟩ := two
  obtain ⟨rfl, owners, names, related⟩ := twins
  cases call with
  | spawnFn entry => exact twins_spawn_fn related entry
  | spawnUser prog =>
      have large : pageSize < prog.length := fills
      dsimp only [spaceStep]
      unfold System.spawnUser
      rw [if_pos large, if_pos large]
      exact related.systems
  | spawnElf data argv0 seed => exact twins_spawn_elf related data argv0 seed
  | spawnFork rip rsp registers fsBase =>
      dsimp only [spaceStep]
      split_ifs with user
      · exact twins_spawn_fork related user rip rsp registers fsBase
      · exact related.systems
  | execve data argv0 argv envp seed =>
      dsimp only [spaceStep]
      split_ifs with user
      · exact twins_execve related user data argv0 argv envp seed
      · exact related.systems
  | brk addr => exact twins_sys_brk related addr
  | mmap addr len prot flags => exact twins_sys_mmap related addr len prot flags
  | pageFault va => exact twins_page_fault related va
  | userStore va value => exact twins_user_store related va value
  | stackStore slot depth value => exact twins_stack_store related slot depth value
  | kernelAlloc pages =>
      obtain ⟨result, space, twinSpace, later, ran, twinRan, _, kept, _⟩ :=
        related_outcomes related (twin_alloc_stack pages)
      dsimp only [spaceStep]
      rw [ran, twinRan]
      exact kept.systems
  | elsewhere change => exact (related_kernel related (change.keeps kernel)).systems

theorem owned_step (call : SpaceCall) (owned : SystemOwned allocator system) :
    SystemOwned allocator (spaceStep allocator system call) := by
  obtain ⟨owners, names, owned⟩ := owned
  by_cases fills : FillsPages call
  · have alike : SystemsRelated image (TwinsOwned allocator) system system :=
      ⟨rfl, owners, names, owned.booted, twins_alike owned.space, owned.tasks⟩
    obtain ⟨_, last, others, kept⟩ := twins_step call fills alike
    exact ⟨last, others, kept.booted, kept.space.owned, kept.tasks⟩
  · cases call with
    | spawnUser prog => exact owned_spawn_user owned prog
    | _ => exact absurd trivial fills

theorem owned_init (ram : WordMemory) (store : Store) :
    SystemOwned allocator (spaceSystem allocator ram store).init := by
  refine ⟨bootOwners image, fun _ => 0, le_refl _, boot_owned allocator ram store, ?_⟩
  have idle (slot : Slot) (task : Task) (present : boot.tasks slot = some task) :
      task = Task.idle := by
    simp only [boot] at present
    split_ifs at present
    cases present
    rfl
  constructor
  · intro slot task present
    cases idle slot task present
    constructor
    · intro user
      cases user
    · intro user
      cases user
    · exact fun _ => rfl
    · exact fun has => absurd rfl has
  · intro slot other task neighbour present _ user
    cases idle slot task present
    cases user

theorem reached_owned (ram : WordMemory) (store : Store) (calls : List SpaceCall) :
    SystemOwned allocator ((spaceSystem allocator ram store).runFrom
      (spaceSystem allocator ram store).init calls) := by
  apply EventSystem.run_keeps (SystemOwned allocator)
  · intro system call owned
    exact owned_step call owned
  · exact owned_init ram store

theorem table_not_leaf (owned : OwnedBy allocator owners names system) {slot : Slot}
    {task : Task} (present : system.kernel.tasks slot = some task) {frame root : Nat}
    (maps : UserMaps system.space.memory (rootOf image task) frame) {tree : Tree}
    (isRoot : IsTable owners tree 4 root) {level table : Nat}
    (visited : TableOf system.space.memory root level table) : table / pageSize ≠ frame := by
  rintro rfl
  obtain ⟨other, isTable⟩ := table_of_owner owned.space isRoot visited
  have leaf := (user_maps_leaf owned present maps).2
  rw [isTable.owned] at leaf
  cases leaf

theorem root_is_table (owned : OwnedBy allocator owners names system) {slot : Slot}
    {task : Task} (present : system.kernel.tasks slot = some task) :
    ∃ tree, IsTable owners tree 4 (rootOf image task) := by
  rcases root_cases owned present with kernelRoot | ⟨_, root⟩
  · rw [kernelRoot]
    exact ⟨.kernel, kernel_root_table image owned.space.kernel⟩
  · exact ⟨_, root⟩

theorem boot_owner_not_leaf {frame name : Nat} (inImage : image.Has frame)
    (grown : bootOwners image ≤ owners) : owners frame ≠ .leaf name := by
  have known : bootOwners image frame ≠ .unowned ∧ bootOwners image frame ≠ .leaf name := by
    unfold bootOwners
    split_ifs <;> simp
  rw [owner_kept grown rfl known.1]
  exact known.2

theorem isolated_of_owned (owned : SystemOwned allocator system) : Isolated image system := by
  obtain ⟨owners, names, owned⟩ := owned
  constructor
  · intro slot other task neighbour present there different frame maps shared
    obtain ⟨user, leaf⟩ := user_maps_leaf owned present maps
    obtain ⟨neighbourUser, otherLeaf⟩ := user_maps_leaf owned there shared
    rw [leaf] at otherLeaf
    apply owned.tasks.distinct slot other task neighbour present there user neighbourUser different
    exact Owner.leaf.inj otherLeaf
  · intro slot other task neighbour present there frame maps level table visited
    obtain ⟨tree, root⟩ := root_is_table owned there
    exact table_not_leaf owned present maps root visited
  · intro slot task present frame maps level table visited
    exact table_not_leaf owned present maps (kernel_root_table image owned.space.kernel) visited
  · rintro slot other task neighbour present there frame maps ⟨has, low, high⟩
    have leaf := (user_maps_leaf owned present maps).2
    rw [((owned.tasks.each other neighbour there).stack has).owned frame low high] at leaf
    cases leaf
  · intro slot task present frame maps inImage
    exact boot_owner_not_leaf inImage owned.booted (user_maps_leaf owned present maps).2
  · intro slot task present user
    have root := (owned.tasks.each slot task present).root user
    have entry := root_entry (entry_at_ok owned.space root (by decide : 0 < 512))
    have kernelEntry := root_entry (entry_at_ok owned.space
      (kernel_root_table image owned.space.kernel) (by decide : 0 < 512))
    rw [entry, kernelEntry, kernel_entry_user]

/-- In every state that any calls by any tasks reach, address spaces are
isolated from each other and from the kernel. -/
theorem spaces_isolated (allocator : PageAllocator image Store) (ram : WordMemory)
    (store : Store) (calls : List SpaceCall) :
    Isolated image ((spaceSystem allocator ram store).runFrom
      (spaceSystem allocator ram store).init calls) :=
  isolated_of_owned (reached_owned ram store calls)

end

end Ferrugem.SpaceIsolation
