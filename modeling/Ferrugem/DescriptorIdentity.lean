import Ferrugem.FileSyscalls

/-!
# Descriptors and working directories keep their file

An inode is free again as soon as its name is gone, and `alloc` hands out the
lowest free one, while descriptors and working directories hold the bare index.
They go on denoting what they were set to as long as no new file takes an inode
that one of them holds.
-/

namespace Ferrugem.DescriptorIdentity

open Ferrugem.ProcessModel Ferrugem.SchedulerModel Ferrugem.RamFsModel
open Ferrugem.DirectoryParents Ferrugem.DirectoryTree Ferrugem.FileSyscalls

set_option autoImplicit false

/-- The bytes moved are those of the file that was opened. -/
def SameFile : FileEvent → Prop
  | .accessed _ opened current => opened = current

/-- Every working directory is the directory that was entered. -/
def DirectoriesKept (state : FileKernel) : Prop :=
  ∀ slot task, state.tasks slot = some task → state.generation task.cwd = task.entered

def createdInode (fs : RamFs) : Operation → Option InodeIndex
  | .mkdir path cwd uid gid _ => (makesAt fs path cwd uid gid).bind fun _ => fs.alloc
  | .touch path cwd uid gid => (createsAt fs path cwd uid gid).bind fun _ => fs.alloc
  | .write path cwd _ uid gid => (createsAt fs path cwd uid gid).bind fun _ => fs.alloc
  | _ => none

/-- The inode that an `O_CREAT` open brings into use. -/
def openedInode (fs : RamFs) (cwd : InodeIndex) (path : Bytes) (flags : Nat) :
    Option InodeIndex :=
  if flags.testBit 6 then createdInode fs (.touch path cwd 0 0) else none

def takenInode (state : FileKernel) : FileAction → Option InodeIndex
  | .sysOpen slot path flags =>
      (state.tasks slot).bind fun task => openedInode state.fs task.cwd path flags
  | .sysOpenat slot dirfd path flags =>
      (state.tasks slot).bind fun task => openedInode state.fs (task.atCwd dirfd) path flags
  | .change operation => createdInode state.fs operation
  | _ => none

/-- The task's working directory or one of its file descriptors. -/
def holds (task : TaskFiles) (idx : InodeIndex) : Bool :=
  task.cwd == idx || (List.finRange maxFds).any fun fd =>
    match task.fdTable fd with
    | .vfsFile inode _ _ => inode == idx.val
    | _ => false

def SparesHeld (state : FileKernel) (action : FileAction) : Prop :=
  ∀ idx ∈ takenInode state action, ∀ slot,
    (state.tasks slot).all (fun task => !holds task idx) = true

instance decidableSparesHeld (state : FileKernel) (action : FileAction) :
    Decidable (SparesHeld state action) :=
  inferInstanceAs (Decidable (∀ idx ∈ takenInode state action, ∀ _, _))

structure TaskDenotes (generation : InodeIndex → Nat) (task : TaskFiles) : Prop where
  files : ∀ fd inode offset writable, task.fdTable fd = .vfsFile inode offset writable →
    ∃ bound : inode < maxInodes, generation ⟨inode, bound⟩ = task.opened fd
  directory : generation task.cwd = task.entered

def Denoting (state : FileKernel) : Prop :=
  ∀ slot task, state.tasks slot = some task → TaskDenotes state.generation task

theorem holds_directory (task : TaskFiles) : holds task task.cwd = true := by simp [holds]

theorem holds_file {task : TaskFiles} {fd : Fd} {idx : InodeIndex} {offset : Nat} {writable : Bool}
    (entry : task.fdTable fd = .vfsFile idx.val offset writable) : holds task idx = true := by
  simp only [holds, Bool.or_eq_true, List.any_eq_true]
  right
  exact ⟨fd, List.mem_finRange fd, by rw [entry]; simp⟩

theorem denotes_same {task : TaskFiles} {before after : InodeIndex → Nat}
    (denotes : TaskDenotes before task)
    (same : ∀ idx, holds task idx = true → after idx = before idx) :
    TaskDenotes after task where
  files := by
    intro fd inode offset writable entry
    obtain ⟨bound, known⟩ := denotes.files fd inode offset writable entry
    refine ⟨bound, ?_⟩
    rw [same ⟨inode, bound⟩ (@holds_file task fd ⟨inode, bound⟩ offset writable entry)]
    exact known
  directory := by
    rw [same task.cwd (holds_directory task)]
    exact denotes.directory

/-- A change that leaves the `used` flag alone, or clears it, brings no inode
into use. -/
theorem modify_used {fs : RamFs} {target idx : InodeIndex} {change : Inode → Inode}
    (isUsed : ((fs.modify target change).inodes idx).used = true)
    (clears : ∀ inode, (change inode).used = true → inode.used = true) :
    (fs.inodes idx).used = true := by
  unfold RamFs.modify at isUsed
  by_cases here : idx = target
  · subst here
    rw [set_inode_same] at isUsed
    exact clears _ isUsed
  · rw [set_inode_other fs _ here] at isUsed
    exact isUsed

theorem release_used {fs : RamFs} {target idx : InodeIndex}
    (isUsed : ((fs.release target).inodes idx).used = true) : (fs.inodes idx).used = true := by
  apply modify_used isUsed
  intro inode cleared
  cases cleared

theorem move_used {fs : RamFs} {src dstParent idx : InodeIndex} {name : Bytes}
    (isUsed : ((fs.move src dstParent name).inodes idx).used = true) :
    (fs.inodes idx).used = true :=
  modify_used isUsed fun _ stays => stays

/-- An inode in use after an operation was in use before, or the operation
created it. -/
theorem apply_used {fs : RamFs} {operation : Operation} {idx : InodeIndex}
    (isUsed : ((fs.apply operation).1.inodes idx).used = true) :
    (fs.inodes idx).used = true ∨ createdInode fs operation = some idx := by
  have shape := apply_effect fs operation
  generalize fs.apply operation = result at shape isUsed
  have placed : ∀ {inode : Inode} {target : InodeIndex},
      ((fs.setInode target inode).inodes idx).used = true →
        (fs.inodes idx).used = true ∨ target = idx := by
    intro inode target appears
    by_cases here : idx = target
    · exact .inr here.symm
    · rw [set_inode_other fs _ here] at appears
      exact .inl appears
  cases shape with
  | keeps => exact .inl isUsed
  | makes resolved isDir allowed absent vacant =>
      rcases placed isUsed with before | rfl
      · exact .inl before
      · right
        simp [createdInode, makesAt, resolved, isDir, allowed, absent, vacant, Option.filter]
  | creates source absent resolved allowed vacant =>
      rcases placed isUsed with before | rfl
      · exact .inl before
      · right
        have creates := creates_at_of_vacant absent resolved allowed vacant
        rcases source with ⟨rfl, _⟩ | rfl
        · simp [createdInode, creates, vacant]
        · simp [createdInode, creates, vacant]
  | overwrites resolved isFile allowed =>
      dsimp only at isUsed
      exact .inl (modify_used isUsed fun _ stays => stays)
  | removesDir resolved notRoot isDir isEmpty allowed => exact .inl (release_used isUsed)
  | removesFile resolved notRoot isFile allowed => exact .inl (release_used isUsed)
  | moves resolved notRoot leaves target enters absent => exact .inl (move_used isUsed)
  | replaces resolved notRoot leaves target enters found different isFile =>
      exact .inl (release_used (move_used isUsed))
  | changesMode resolved allowed =>
      dsimp only at isUsed
      exact .inl (modify_used isUsed fun _ stays => stays)
  | changesOwner resolved =>
      dsimp only at isUsed
      exact .inl (modify_used isUsed fun _ stays => stays)
  | patches isUsed' isFile =>
      dsimp only at isUsed
      exact .inl (modify_used isUsed fun _ stays => stays)

theorem advance_apply {fs : RamFs} {operation : Operation} {generation : InodeIndex → Nat}
    {idx : InodeIndex} (other : createdInode fs operation ≠ some idx) :
    advance fs (fs.apply operation).1 generation idx = generation idx := by
  unfold advance
  rw [if_neg]
  rintro ⟨unused, isUsed⟩
  rcases apply_used isUsed with before | created
  · rw [before] at unused
    cases unused
  · exact other created

section

variable {state : FileKernel} {slot : Slot} {task : TaskFiles}

theorem denoting_put (denoting : Denoting state) (denotes : TaskDenotes state.generation task) :
    Denoting (state.putTask slot task) := by
  intro other found present
  by_cases here : other = slot
  · subst here
    simp only [FileKernel.putTask, Function.update_self, Option.some.injEq] at present
    subst present
    exact denotes
  · simp only [FileKernel.putTask, Function.update_of_ne here] at present
    exact denoting other found present

theorem denoting_apply (denoting : Denoting state) {operation : Operation}
    (spares : ∀ idx ∈ createdInode state.fs operation, ∀ slot,
      (state.tasks slot).all (fun task => !holds task idx) = true) :
    Denoting (state.withFs (state.fs.apply operation).1) := by
  intro other found present
  apply denotes_same (denoting other found present)
  intro idx held
  apply advance_apply
  intro created
  have spared := spares idx created other
  rw [show state.tasks other = some found from present, Option.all_some, held] at spared
  cases spared

theorem denotes_entry {fd : Fd} {entry : FdEntry} {generation : Nat}
    (denotes : TaskDenotes state.generation task)
    (known : ∀ inode offset writable, entry = .vfsFile inode offset writable →
      ∃ bound : inode < maxInodes, state.generation ⟨inode, bound⟩ = generation) :
    TaskDenotes state.generation
      { task with
        fdTable := Function.update task.fdTable fd entry
        opened := Function.update task.opened fd generation } where
  files := by
    intro other inode offset writable found
    by_cases here : other = fd
    · subst here
      simp only [Function.update_self] at found ⊢
      exact known inode offset writable found
    · simp only [Function.update_of_ne here] at found ⊢
      exact denotes.files other inode offset writable found
  directory := denotes.directory

theorem denoting_fd_alloc {entry : FdEntry} {generation : Nat} (denoting : Denoting state)
    (denotes : TaskDenotes state.generation task)
    (known : ∀ inode offset writable, entry = .vfsFile inode offset writable →
      ∃ bound : inode < maxInodes, state.generation ⟨inode, bound⟩ = generation) :
    Denoting (state.fdAlloc slot task entry generation).1 := by
  unfold FileKernel.fdAlloc FdTable.alloc
  cases FdTable.freeFd task.fdTable with
  | none => exact denoting
  | some fd => exact denoting_put denoting (denotes_entry denotes known)

theorem get_entry {table : FdTable} {fd : Nat} {entry : FdEntry}
    (found : FdTable.get table fd = some entry) :
    ∃ bound : fd < maxFds, table ⟨fd, bound⟩ = entry := by
  unfold FdTable.get at found
  split_ifs at found with bound
  refine ⟨bound, ?_⟩
  cases content : table ⟨fd, bound⟩ <;> rw [content] at found <;> cases found <;> rfl

theorem denotes_get {fd inode offset : Nat} {writable : Bool}
    (denotes : TaskDenotes state.generation task)
    (found : FdTable.get task.fdTable fd = some (.vfsFile inode offset writable)) :
    ∃ bound : inode < maxInodes, state.generation ⟨inode, bound⟩ = task.openedAt fd := by
  obtain ⟨bound, entry⟩ := get_entry found
  have known := denotes.files _ _ _ _ entry
  unfold TaskFiles.openedAt
  rw [dif_pos bound]
  exact known

theorem denotes_offset (denotes : TaskDenotes state.generation task) (fd offset : Nat) :
    TaskDenotes state.generation (task.withOffset fd offset) where
  files := by
    intro other inode position writable entry
    simp only [TaskFiles.withOffset, setOffset] at entry
    split_ifs at entry with bound
    · cases content : task.fdTable ⟨fd, bound⟩ with
      | vfsFile old _ mode =>
          simp only [content] at entry
          by_cases here : other = ⟨fd, bound⟩
          · subst here
            rw [Function.update_self] at entry
            cases entry
            exact denotes.files _ _ _ _ content
          · rw [Function.update_of_ne here] at entry
            exact denotes.files other inode position writable entry
      | _ =>
          simp only [content] at entry
          exact denotes.files other inode position writable entry
    · exact denotes.files other inode position writable entry
  directory := denotes.directory

/-- The truncation of an open and the other writes to a descriptor bring no
inode into use. -/
theorem denoting_inode_write (denoting : Denoting state) (idx : InodeIndex) (offset : Nat)
    (content : Bytes) : Denoting (state.withFs (state.fs.inodeWrite idx offset content).1) :=
  @denoting_apply state denoting (.inodeWrite idx offset content) fun _ created => by cases created

theorem denoting_open_from {cwd : InodeIndex} {path : Bytes} {flags : Nat}
    (denoting : Denoting state) (present : state.tasks slot = some task)
    (spares : ∀ idx ∈ openedInode state.fs cwd path flags, ∀ slot,
      (state.tasks slot).all (fun task => !holds task idx) = true) :
    Denoting (state.openFrom slot task cwd path flags).1 := by
  unfold FileKernel.openFrom
  split
  · rename_i device isDevice
    apply denoting_fd_alloc denoting (denoting slot task present)
    rintro inode offset writable rfl
    unfold openDevPath at isDevice
    split_ifs at isDevice <;> cases isDevice
  · dsimp only
    have touchedDenoting : Denoting (if flags.testBit 6 then
        state.withFs (state.fs.touch path cwd 0 0).1 else state) := by
      split_ifs with creating
      · apply @denoting_apply state denoting (.touch path cwd 0 0)
        intro idx created
        apply spares
        rw [openedInode, if_pos creating]
        exact created
      · exact denoting
    have touchedTasks : (if flags.testBit 6 then
        state.withFs (state.fs.touch path cwd 0 0).1 else state).tasks slot = some task := by
      split_ifs <;> exact present
    generalize (if flags.testBit 6 then
        state.withFs (state.fs.touch path cwd 0 0).1 else state) = touched at *
    split
    · rename_i inode opened
      have truncatedDenoting : Denoting (if flags.testBit 9 &&
          (flags.testBit 0 || flags.testBit 1) then
          touched.withFs (touched.fs.inodeWrite inode 0 []).1 else touched) := by
        split_ifs
        · exact denoting_inode_write touchedDenoting inode 0 []
        · exact touchedDenoting
      have truncatedTasks : (if flags.testBit 9 && (flags.testBit 0 || flags.testBit 1) then
          touched.withFs (touched.fs.inodeWrite inode 0 []).1 else touched).tasks slot =
            some task := by
        split_ifs <;> exact touchedTasks
      generalize (if flags.testBit 9 && (flags.testBit 0 || flags.testBit 1) then
          touched.withFs (touched.fs.inodeWrite inode 0 []).1 else touched) = truncated at *
      apply denoting_fd_alloc truncatedDenoting (truncatedDenoting slot task truncatedTasks)
      intro index offset writable same
      cases same
      exact ⟨inode.isLt, rfl⟩
    · split_ifs
      · exact touchedDenoting
      · split
        · apply denoting_fd_alloc touchedDenoting (touchedDenoting slot task touchedTasks)
          intro inode offset writable other
          cases other
        · exact touchedDenoting

theorem denotes_close {fd : Nat} {closed : FdEntry} {table : FdTable}
    (denotes : TaskDenotes state.generation task)
    (closes : FdTable.close task.fdTable fd = some (closed, table)) :
    TaskDenotes state.generation { task with fdTable := table } where
  files := by
    intro other inode offset writable entry
    unfold FdTable.close at closes
    split_ifs at closes with bound
    have emptied : table = Function.update task.fdTable ⟨fd, bound⟩ .empty := by
      cases content : task.fdTable ⟨fd, bound⟩ <;> rw [content] at closes <;> cases closes <;> rfl
    subst emptied
    by_cases here : other = ⟨fd, bound⟩
    · subst here
      simp only [Function.update_self, reduceCtorEq] at entry
    · simp only [Function.update_of_ne here] at entry
      exact denotes.files other inode offset writable entry
  directory := denotes.directory

theorem denoting_lseek {fd whence : Nat} {offset : Int} (denoting : Denoting state)
    (denotes : TaskDenotes state.generation task) :
    Denoting (state.sysLseek slot task fd offset whence) := by
  unfold FileKernel.sysLseek
  split
  · dsimp only
    split
    · split_ifs
      · exact denoting
      · exact denoting_put denoting (denotes_offset denotes _ _)
    · exact denoting
  · exact denoting

theorem denoting_read {fd length : Nat} (denoting : Denoting state)
    (denotes : TaskDenotes state.generation task) :
    Denoting (state.sysRead slot task fd length).1 := by
  unfold FileKernel.sysRead
  split
  · dsimp only
    split_ifs
    · exact denoting
    · exact denoting_put denoting (denotes_offset denotes _ _)
    · exact denoting
  · exact denoting

theorem denoting_write {fd : Nat} {content : Bytes} (denoting : Denoting state)
    (present : state.tasks slot = some task) :
    Denoting (state.sysWrite slot task fd content).1 := by
  unfold FileKernel.sysWrite
  split
  · rename_i inode offset writable found
    dsimp only
    split_ifs with readOnly bound
    · exact denoting
    · exact denoting
    · have written := denoting_inode_write denoting ⟨inode, bound⟩ offset content
      exact denoting_put written (denotes_offset (written slot task present) _ _)
    · exact denoting
  · exact denoting

theorem read_same_file {fd length : Nat} {event : FileEvent}
    (denotes : TaskDenotes state.generation task)
    (emitted : (state.sysRead slot task fd length).2 = some event) : SameFile event := by
  unfold FileKernel.sysRead at emitted
  split at emitted
  · rename_i found
    obtain ⟨bound, known⟩ := denotes_get denotes found
    rw [dif_pos bound] at emitted
    dsimp only at emitted
    split_ifs at emitted
    cases emitted
    exact known.symm
  · cases emitted

theorem write_same_file {fd : Nat} {content : Bytes} {event : FileEvent}
    (denotes : TaskDenotes state.generation task)
    (emitted : (state.sysWrite slot task fd content).2 = some event) : SameFile event := by
  unfold FileKernel.sysWrite at emitted
  split at emitted
  · rename_i found
    obtain ⟨bound, known⟩ := denotes_get denotes found
    rw [dif_pos bound] at emitted
    dsimp only at emitted
    split_ifs at emitted
    cases emitted
    exact known.symm
  · cases emitted

theorem denoting_dup {oldFd : Nat} (denoting : Denoting state)
    (denotes : TaskDenotes state.generation task) :
    Denoting (state.sysDup slot task oldFd) := by
  unfold FileKernel.sysDup
  split
  · rename_i entry found
    apply denoting_fd_alloc denoting denotes
    rintro inode offset writable rfl
    exact denotes_get denotes found
  · exact denoting

theorem denoting_dup2 {oldFd newFd : Nat} (denoting : Denoting state)
    (denotes : TaskDenotes state.generation task) :
    Denoting (state.sysDup2 slot task oldFd newFd) := by
  unfold FileKernel.sysDup2
  split_ifs with same bound
  · exact denoting
  · split
    · rename_i entry found
      apply denoting_put denoting
      apply denotes_entry denotes
      rintro inode offset writable rfl
      exact denotes_get denotes found
    · exact denoting
  · split <;> exact denoting

theorem denoting_close {fd : Nat} (denoting : Denoting state)
    (denotes : TaskDenotes state.generation task) :
    Denoting (state.sysClose slot task fd) := by
  unfold FileKernel.sysClose
  split
  · rename_i closes
    exact denoting_put denoting (denotes_close denotes closes)
  · exact denoting

theorem denoting_chdir {path : Bytes} (denoting : Denoting state)
    (denotes : TaskDenotes state.generation task) :
    Denoting (state.sysChdir slot task path) := by
  unfold FileKernel.sysChdir
  split_ifs
  · exact denoting
  · split
    · exact denoting_put denoting ⟨denotes.files, rfl⟩
    · exact denoting

end

section

variable (state : FileKernel) (slot : Slot) (task : TaskFiles)

@[simp]
theorem fd_alloc_generation (entry : FdEntry) (generation : Nat) :
    (state.fdAlloc slot task entry generation).1.generation = state.generation := by
  unfold FileKernel.fdAlloc
  split <;> rfl

@[simp]
theorem sys_read_generation (fd length : Nat) :
    (state.sysRead slot task fd length).1.generation = state.generation := by
  unfold FileKernel.sysRead
  split
  · dsimp only
    split_ifs <;> rfl
  · rfl

@[simp]
theorem sys_lseek_generation (fd : Nat) (offset : Int) (whence : Nat) :
    (state.sysLseek slot task fd offset whence).generation = state.generation := by
  unfold FileKernel.sysLseek
  split
  · dsimp only
    split
    · split_ifs <;> rfl
    · rfl
  · rfl

@[simp]
theorem sys_close_generation (fd : Nat) :
    (state.sysClose slot task fd).generation = state.generation := by
  unfold FileKernel.sysClose
  split <;> rfl

@[simp]
theorem sys_dup_generation (oldFd : Nat) :
    (state.sysDup slot task oldFd).generation = state.generation := by
  unfold FileKernel.sysDup
  split
  · rw [fd_alloc_generation]
  · rfl

@[simp]
theorem sys_dup2_generation (oldFd newFd : Nat) :
    (state.sysDup2 slot task oldFd newFd).generation = state.generation := by
  unfold FileKernel.sysDup2
  split_ifs
  · rfl
  · split <;> rfl
  · split <;> rfl

@[simp]
theorem sys_chdir_generation (path : Bytes) :
    (state.sysChdir slot task path).generation = state.generation := by
  unfold FileKernel.sysChdir
  split_ifs
  · rfl
  · split <;> rfl

end

theorem created_not_root {fs : RamFs} {operation : Operation} :
    createdInode fs operation ≠ some rootInode := by
  intro created
  have fresh : fs.alloc = some rootInode := by
    cases operation with
    | mkdir path cwd uid gid mode => exact (Option.bind_eq_some_iff.mp created).choose_spec.2
    | touch path cwd uid gid => exact (Option.bind_eq_some_iff.mp created).choose_spec.2
    | write path cwd content uid gid => exact (Option.bind_eq_some_iff.mp created).choose_spec.2
    | _ => cases created
  exact (alloc_unused fresh).2 rfl

theorem root_apply (state : FileKernel) (operation : Operation) :
    (state.withFs (state.fs.apply operation).1).generation rootInode =
      state.generation rootInode :=
  advance_apply created_not_root

theorem root_open_from (state : FileKernel) (slot : Slot) (task : TaskFiles) (cwd : InodeIndex)
    (path : Bytes) (flags : Nat) :
    (state.openFrom slot task cwd path flags).1.generation rootInode =
      state.generation rootInode := by
  have touchedRoot : (if flags.testBit 6 then
      state.withFs (state.fs.touch path cwd 0 0).1 else state).generation rootInode =
        state.generation rootInode := by
    split_ifs
    · exact root_apply state (.touch path cwd 0 0)
    · rfl
  unfold FileKernel.openFrom
  split
  · rw [fd_alloc_generation]
  · dsimp only
    rw [← touchedRoot]
    generalize (if flags.testBit 6 then
      state.withFs (state.fs.touch path cwd 0 0).1 else state) = touched
    split
    · rename_i inode opened
      rw [fd_alloc_generation]
      split_ifs
      · exact root_apply touched (.inodeWrite inode 0 [])
      · rfl
    · split_ifs
      · rfl
      · split
        · rw [fd_alloc_generation]
        · rfl

theorem root_write (state : FileKernel) (slot : Slot) (task : TaskFiles) (fd : Nat)
    (content : Bytes) :
    (state.sysWrite slot task fd content).1.generation rootInode =
      state.generation rootInode := by
  unfold FileKernel.sysWrite
  split
  · rename_i inode offset writable found
    dsimp only
    split_ifs with readOnly bound
    · rfl
    · rfl
    · exact root_apply state (.inodeWrite ⟨inode, bound⟩ offset content)
    · rfl
  · rfl

theorem by_task_cases {Property : FileKernel × Option FileEvent → Prop} {state : FileKernel}
    {slot : Slot} {call : TaskFiles → FileKernel × Option FileEvent}
    (idle : Property (state, none))
    (calls : ∀ task, state.tasks slot = some task → Property (call task)) :
    Property (state.byTask slot call) := by
  unfold FileKernel.byTask
  split
  · exact calls _ ‹_›
  · exact idle

theorem root_step (state : FileKernel) (action : FileAction) :
    (state.step action).1.generation rootInode = state.generation rootInode := by
  have byTask : ∀ {slot : Slot} {call : TaskFiles → FileKernel × Option FileEvent},
      (∀ task, (call task).1.generation rootInode = state.generation rootInode) →
        (state.byTask slot call).1.generation rootInode = state.generation rootInode := by
    intro slot call calls
    exact @by_task_cases (fun result => result.1.generation rootInode = state.generation rootInode)
      state slot call rfl fun task _ => calls task
  cases action with
  | sysOpen slot path flags =>
      apply byTask
      intro task
      dsimp only [FileKernel.sysOpen]
      split_ifs
      · rfl
      · exact root_open_from state slot task task.cwd path flags
  | sysOpenat slot dirfd path flags =>
      apply byTask
      intro task
      dsimp only [FileKernel.sysOpenat]
      split_ifs
      · rfl
      · exact root_open_from state slot task (task.atCwd dirfd) path flags
  | sysWrite slot fd content => exact byTask fun task => root_write state slot task fd content
  | allocOther slot entry =>
      apply byTask
      intro task
      dsimp only
      split_ifs
      · rfl
      · rw [fd_alloc_generation]
  | change operation => exact root_apply state operation
  | sysRead | sysLseek | sysClose | sysDup | sysDup2 | sysChdir | fork | exit =>
      apply byTask
      intro task
      simp [FileKernel.putTask]
  | spawn | reap => rfl

/-- The root is never freed, so a new task's working directory is what it was
at `fs::init`. -/
structure Kept (state : FileKernel) : Prop where
  denoting : Denoting state
  root : state.generation rootInode = 0

theorem denotes_new {state : FileKernel} (root : state.generation rootInode = 0) :
    TaskDenotes state.generation TaskFiles.new where
  files := by
    intro fd inode offset writable entry
    simp only [TaskFiles.new, FdTable.new] at entry
    split_ifs at entry
  directory := root

theorem denoting_step {state : FileKernel} {action : FileAction} (kept : Kept state)
    (spares : SparesHeld state action) : Denoting (state.step action).1 := by
  have byTask : ∀ {slot : Slot} {call : TaskFiles → FileKernel × Option FileEvent},
      (∀ task, state.tasks slot = some task → Denoting (call task).1) →
        Denoting (state.byTask slot call).1 := by
    intro slot call calls
    exact @by_task_cases (fun result => Denoting result.1) state slot call kept.denoting calls
  cases action with
  | sysOpen slot path flags =>
      apply byTask
      intro task present
      dsimp only [FileKernel.sysOpen]
      split_ifs
      · exact kept.denoting
      · apply denoting_open_from kept.denoting present
        intro idx taken
        apply spares
        simpa [takenInode, present] using taken
  | sysOpenat slot dirfd path flags =>
      apply byTask
      intro task present
      dsimp only [FileKernel.sysOpenat]
      split_ifs
      · exact kept.denoting
      · apply denoting_open_from kept.denoting present
        intro idx taken
        apply spares
        simpa [takenInode, present] using taken
  | sysRead slot fd length =>
      apply byTask
      intro task present
      exact denoting_read kept.denoting (kept.denoting slot task present)
  | sysWrite slot fd content =>
      apply byTask
      intro task present
      exact denoting_write kept.denoting present
  | sysLseek slot fd offset whence =>
      apply byTask
      intro task present
      exact denoting_lseek kept.denoting (kept.denoting slot task present)
  | sysClose slot fd =>
      apply byTask
      intro task present
      exact denoting_close kept.denoting (kept.denoting slot task present)
  | sysDup slot oldFd =>
      apply byTask
      intro task present
      exact denoting_dup kept.denoting (kept.denoting slot task present)
  | sysDup2 slot oldFd newFd =>
      apply byTask
      intro task present
      exact denoting_dup2 kept.denoting (kept.denoting slot task present)
  | sysChdir slot path =>
      apply byTask
      intro task present
      exact denoting_chdir kept.denoting (kept.denoting slot task present)
  | allocOther slot entry =>
      apply byTask
      intro task present
      dsimp only
      split_ifs with isFile
      · exact kept.denoting
      · apply denoting_fd_alloc kept.denoting (kept.denoting slot task present)
        rintro inode offset writable rfl
        exact absurd rfl isFile
  | change operation => exact denoting_apply kept.denoting spares
  | spawn slot => exact denoting_put kept.denoting (denotes_new kept.root)
  | fork parent child =>
      apply byTask
      intro task present
      exact denoting_put kept.denoting (kept.denoting parent task present)
  | exit slot =>
      apply byTask
      intro task present
      apply denoting_put kept.denoting
      refine ⟨?_, (kept.denoting slot task present).directory⟩
      intro fd inode offset writable entry
      cases entry
  | reap slot =>
      intro other task present
      by_cases here : other = slot
      · subst here
        simp [FileKernel.step] at present
      · simp only [FileKernel.step, Function.update_of_ne here] at present
        exact kept.denoting other task present

theorem kept_step {state : FileKernel} {action : FileAction} (kept : Kept state)
    (spares : SparesHeld state action) : Kept (state.step action).1 where
  denoting := denoting_step kept spares
  root := (root_step state action).trans kept.root

theorem step_same_file {state : FileKernel} {action : FileAction} {event : FileEvent}
    (kept : Kept state) (emitted : (state.step action).2 = some event) : SameFile event := by
  have silent : ∀ {slot : Slot} {call : TaskFiles → FileKernel},
      (state.byTask slot fun task => (call task, none)).2 ≠ some event := by
    intro slot call
    exact @by_task_cases (fun result => result.2 ≠ some event) state slot _ nofun fun _ _ => nofun
  cases action with
  | sysRead slot fd length =>
      simp only [FileKernel.step, FileKernel.byTask] at emitted
      split at emitted
      · exact read_same_file (kept.denoting slot _ ‹_›) emitted
      · cases emitted
  | sysWrite slot fd content =>
      simp only [FileKernel.step, FileKernel.byTask] at emitted
      split at emitted
      · exact write_same_file (kept.denoting slot _ ‹_›) emitted
      · cases emitted
  | change | spawn | reap => cases emitted
  | _ => exact absurd emitted silent

theorem kept_init (hello : Bytes) : Kept (fileSystem hello).init where
  denoting := by
    intro slot task present
    simp only [fileSystem] at present
    split_ifs at present
    cases present
    exact @denotes_new (fileSystem hello).init rfl
  root := rfl

/-- In every run whose new files take no inode that a descriptor or a working
directory still holds, the bytes that a descriptor reads or writes are those
of the file it was opened on, and every working directory is the one entered. -/
theorem descriptors_keep_their_file (hello : Bytes) (actions : List FileAction)
    (spares : (fileSystem hello).StepsMeet SparesHeld (fileSystem hello).init actions) :
    (∀ event ∈ (fileSystem hello).traceFrom (fileSystem hello).init actions, SameFile event) ∧
      DirectoriesKept ((fileSystem hello).runFrom (fileSystem hello).init actions) := by
  have preserves : ∀ state action, Kept state → SparesHeld state action →
      Kept ((fileSystem hello).step state action).1 := fun _ _ => kept_step
  constructor
  · refine EventSystem.trace_satisfies Kept preserves ?_ (kept_init hello) spares
    intro state action event kept _ emitted
    exact step_same_file kept emitted
  · have kept := EventSystem.run_preserves Kept preserves (kept_init hello) spares
    intro slot task present
    exact (kept.denoting slot task present).directory

def fileF : Bytes := ascii ['/', 't', 'm', 'p', '/', 'f']

def fileG : Bytes := ascii ['/', 't', 'm', 'p', '/', 'g']

/-- The task creates and opens `/tmp/f`, another file takes the next inode,
and the task writes to its own. -/
def writeBeside : List FileAction :=
  [.sysOpen idleSlot fileF 0x42, .change (.write fileG rootInode (ascii ['g']) 0 0),
    .sysWrite idleSlot 3 (ascii ['f'])]

theorem descriptors_keep_their_file_beside :
    (fileSystem []).traceFrom (fileSystem []).init writeBeside =
        [.accessed ⟨8, by decide⟩ 1 1] ∧
      ∀ event ∈ (fileSystem []).traceFrom (fileSystem []).init writeBeside, SameFile event :=
  ⟨by decide +kernel, (descriptors_keep_their_file [] writeBeside (by decide +kernel)).1⟩

/-- `/tmp/f` is removed while it is open, and `/tmp/g` takes its inode. -/
def readAfterUnlink : List FileAction :=
  [.sysOpen idleSlot fileF 0x42, .change (.unlink fileF rootInode 0 0),
    .change (.write fileG rootInode (ascii ['g']) 0 0), .sysRead idleSlot 3 1]

/-- The descriptor of `/tmp/f` reads the bytes of `/tmp/g`. -/
theorem descriptor_reads_other_file :
    ¬∀ (hello : Bytes) (actions : List FileAction),
      (∀ event ∈ (fileSystem hello).traceFrom (fileSystem hello).init actions, SameFile event) ∧
        DirectoriesKept ((fileSystem hello).runFrom (fileSystem hello).init actions) := by
  intro keep
  have read : (fileSystem []).traceFrom (fileSystem []).init readAfterUnlink =
      [.accessed ⟨8, by decide⟩ 1 2] := by
    decide +kernel
  have same := (keep [] readAfterUnlink).1 (.accessed ⟨8, by decide⟩ 1 2) (by
    rw [read]
    exact List.mem_singleton_self _)
  cases same

end Ferrugem.DescriptorIdentity
