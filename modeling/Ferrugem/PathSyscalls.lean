import Ferrugem.ExecArguments
import Ferrugem.InodeWrites
import Ferrugem.Library.AsciiText
import Ferrugem.PathResolution
import Ferrugem.Truncation

/-!
# The system calls that take a path

`sys_open`, `sys_mkdir`, `sys_rmdir`, `sys_unlink`, `sys_chdir`, `sys_stat` and
`sys_execve` get their path from `read_path`, which stops at 256 bytes and hands over
what it has. A longer path acts on its first 256 bytes, unless there is nothing at
them for the call.
-/

namespace Ferrugem.PathSyscalls

open Ferrugem.ProcessModel Ferrugem.SchedulerModel Ferrugem.RamFsModel
open Ferrugem.DirectoryParents Ferrugem.DirectoryTree Ferrugem.FileSyscalls
open Ferrugem.SyscallStores Ferrugem.ExecArguments TerminatedLists
open Ferrugem.PagingModel Ferrugem.AddressSpaceModel Ferrugem.InitialStacks
open Ferrugem.ElfLoaderModel (isElf)
open Ferrugem.DescriptorIdentity Ferrugem.PathResolution
open Ferrugem.InodeWrites (motdPath)
open Ferrugem.DescriptorSyscalls (currentFdAlloc)

set_option autoImplicit false

/-- What `sys_open` leaves of the filesystem, and the entry that it installs. -/
def openEntry (fs : RamFs) (cwd : InodeIndex) (path : Bytes) (flags : Nat) :
    RamFs × Option FdEntry :=
  match openDevPath path with
  | some device => (fs, some device)
  | none =>
      let writable := flags.testBit 0 || flags.testBit 1
      let touched := if flags.testBit 6 then (fs.touch path cwd 0 0).1 else fs
      match touched.openCheck path cwd 0 0 writable with
      | some inode =>
          let truncated :=
            if flags.testBit 9 && writable then (touched.inodeWrite inode 0 []).1 else touched
          let offset := if flags.testBit 10 && writable then inodeSize truncated inode else 0
          (truncated, some (.vfsFile inode.val offset writable))
      | none =>
          if writable then (touched, none)
          else (touched, (openDir touched path cwd).map fun dir => .vfsDir dir.val 0)

theorem alloc_located {kernel : Kernel} {entry : FdEntry} {limit : Nat}
    (located : ∀ task, kernel.currentTask = some task → task.cwd < limit) :
    ∀ task, (currentFdAlloc kernel entry).1.currentTask = some task → task.cwd < limit := by
  unfold currentFdAlloc
  cases present : kernel.currentTask with
  | none => exact located
  | some current =>
      dsimp only
      cases FdTable.alloc current.fdTable entry with
      | none => exact located
      | some opened =>
          intro task same
          simp only [Kernel.currentTask, Kernel.setTask, Function.update_self,
            Option.some.injEq] at same
          rw [← same]
          exact located current present

/-- `set_cwd`. -/
def setCwd (kernel : Kernel) (inode : Nat) : Kernel :=
  match kernel.currentTask with
  | some task => kernel.setTask kernel.current { task with cwd := inode }
  | none => kernel

theorem set_cwd_located {kernel : Kernel} {inode limit : Nat} (bound : inode < limit) :
    ∀ task, (setCwd kernel inode).currentTask = some task → task.cwd < limit := by
  unfold setCwd
  cases present : kernel.currentTask with
  | none =>
      intro task other
      rw [present] at other
      cases other
  | some current =>
      intro task same
      simp only [Kernel.currentTask, Kernel.setTask, Function.update_self,
        Option.some.injEq] at same
      rw [← same]
      exact bound

/-- `current_fd_alloc` at the end of a call, and its answer. -/
def installEntry (state : SyscallState) (entry : FdEntry) : SyscallState × Outcome :=
  ({ state with
      kernel := (currentFdAlloc state.kernel entry).1
      located := alloc_located state.located },
    match (currentFdAlloc state.kernel entry).2 with
    | some fd => returns [] fd.val
    | none => fails 24)

/-- `sys_open` from the path on. -/
def openPath (state : SyscallState) (flags : Nat) (path : Bytes) : SyscallState × Outcome :=
  match openEntry state.fs state.cwd path flags with
  | (fs, some entry) => installEntry { state with fs := fs } entry
  | (fs, none) => ({ state with fs := fs }, fails 2)

def mkdirPath (state : SyscallState) (mode : Address) (path : Bytes) : SyscallState × Outcome :=
  let made := state.fs.mkdir path state.cwd 0 0 (mode.truncate 16)
  ({ state with fs := made.1 }, if made.2 then returns [] 0 else fails 17)

def rmdirPath (state : SyscallState) (path : Bytes) : SyscallState × Outcome :=
  let removed := state.fs.rmdir path state.cwd 0 0
  ({ state with fs := removed.1 }, if removed.2 then returns [] 0 else fails 2)

def unlinkPath (state : SyscallState) (path : Bytes) : SyscallState × Outcome :=
  let removed := state.fs.unlink path state.cwd 0 0
  ({ state with fs := removed.1 }, if removed.2 then returns [] 0 else fails 2)

def chdirPath (state : SyscallState) (path : Bytes) : SyscallState × Outcome :=
  match openDir state.fs path state.cwd with
  | some dir =>
      ({ state with
          kernel := setCwd state.kernel dir.val
          located := set_cwd_located dir.isLt }, returns [] 0)
  | none => (state, fails 2)

inductive PathCall where
  | sysOpen (flags : Nat)
  | sysMkdir (mode : Address)
  | sysRmdir
  | sysUnlink
  | sysChdir
  | sysStat (buf : Address)

def operate (state : SyscallState) (path : Bytes) : PathCall → SyscallState × Outcome
  | .sysOpen flags => openPath state flags path
  | .sysMkdir mode => mkdirPath state mode path
  | .sysRmdir => rmdirPath state path
  | .sysUnlink => unlinkPath state path
  | .sysChdir => chdirPath state path
  | .sysStat buf => (state, statPath state state.cwd path buf)

/-- What a call does with the result of `read_path`. -/
def withPath (state : SyscallState) (pathPtr : Address) (call : PathCall) :
    SyscallState × Outcome :=
  match state.memory.readPath pathPtr with
  | some path => if path = [] then (state, fails 2) else operate state path call
  | none => (state, fails 2)

def sysOpen (state : SyscallState) (pathPtr : Address) (flags : Nat) : SyscallState × Outcome :=
  if pathPtr = 0 then (state, fails 14) else withPath state pathPtr (.sysOpen flags)

def perform (state : SyscallState) (pathPtr : Address) : PathCall → SyscallState × Outcome
  | .sysOpen flags => sysOpen state pathPtr flags
  | .sysStat buf => (state, sysStat state pathPtr buf)
  | call => withPath state pathPtr call

def Refuses (outcome : Outcome) : Prop := ∃ errno, outcome.result = some (.error errno)

/-- An entry that was made has the name at the end of the string. -/
def NamesMade (before after : RamFs) (string : Bytes) : Prop :=
  ∀ idx, (before.inodes idx).used = false → (after.inodes idx).used = true →
    (after.inodes idx).name = lastName string

/-- The call fails and leaves the filesystem as it is, or works on the string itself. -/
def ActsOnGiven (state : SyscallState) (pathPtr : Address) (string : Bytes) (call : PathCall) :
    Prop :=
  Refuses (perform state pathPtr call).2 ∧ (perform state pathPtr call).1.fs = state.fs ∨
    state.memory.readPath pathPtr = some string ∧
      perform state pathPtr call = operate state string call ∧
      NamesMade state.fs (perform state pathPtr call).1.fs string

def limit : Nat := 256

/-- `from_utf8` accepts the bytes. -/
def isText (bytes : Bytes) : Bool := (ByteArray.mk bytes.toArray).validateUTF8

def HasRoom (state : SyscallState) : Prop :=
  ∃ task ∈ state.kernel.currentTask, FdTable.freeFd task.fdTable ≠ none

/-- There is something at the path for the call: a place for a new file, a file or a
directory of the right kind, and a descriptor where one is needed. -/
def Finds (state : SyscallState) (path : Bytes) : PathCall → Prop
  | .sysOpen flags =>
      openDevPath path = none ∧ flags.testBit 6 = true ∧
          (createsAt state.fs path state.cwd 0 0).isSome = true ∨
        HasRoom state ∧ (openDevPath path ≠ none ∨
          ∃ idx ∈ state.fs.resolve path state.cwd,
            (flags.testBit 0 || flags.testBit 1) = true → (state.fs.inodes idx).kind ≠ .dir)
  | .sysMkdir _ => (makesAt state.fs path state.cwd 0 0).isSome = true
  | .sysRmdir => ∃ idx ∈ state.fs.resolve path state.cwd,
      idx ≠ rootInode ∧ (state.fs.inodes idx).kind = .dir ∧ state.fs.hasChild idx = false
  | .sysUnlink => ∃ idx ∈ state.fs.resolve path state.cwd,
      idx ≠ rootInode ∧ (state.fs.inodes idx).kind ≠ .dir
  | .sysChdir => ∃ idx ∈ state.fs.resolve path state.cwd, (state.fs.inodes idx).kind = .dir
  | .sysStat buf => buf ≠ 0 ∧ (devStat path ≠ none ∨
      ∃ idx ∈ state.fs.resolve path state.cwd, (state.fs.inodes idx).used = true)

/-- The operation on the filesystem that a call stands for. -/
def fsOperation (cwd : InodeIndex) (path : Bytes) : PathCall → Option Operation
  | .sysOpen flags =>
      if openDevPath path = none ∧ flags.testBit 6 = true then some (.touch path cwd 0 0) else none
  | .sysMkdir mode => some (.mkdir path cwd 0 0 (mode.truncate 16))
  | .sysRmdir => some (.rmdir path cwd 0 0)
  | .sysUnlink => some (.unlink path cwd 0 0)
  | .sysChdir => none
  | .sysStat _ => none

def madeEntry (state : SyscallState) (path : Bytes) (call : PathCall) : Option InodeIndex :=
  (fsOperation state.cwd path call).bind (createdInode state.fs)

/-- The call makes an entry, and `set_name` has no room for its name. -/
def CutsName (state : SyscallState) (path : Bytes) (call : PathCall) : Prop :=
  madeEntry state path call ≠ none ∧ maxName < (lastName path).length

section

variable {state : SyscallState} {path : Bytes}

theorem refuses_fails (errno : Nat) : Refuses (fails errno) := ⟨errno, rfl⟩

theorem not_refuses_returns (stores : List Store) (value : Int) :
    ¬Refuses (returns stores value) := by
  rintro ⟨errno, other⟩
  cases other

theorem perm_root {fs : RamFs} {idx : InodeIndex} {uid gid op : BitVec 16} (isRoot : uid = 0) :
    fs.perm idx uid gid op = true := if_pos isRoot

theorem alloc_none_iff {kernel : Kernel} (entry : FdEntry) :
    (currentFdAlloc kernel entry).2 = none ↔
      ¬∃ task ∈ kernel.currentTask, FdTable.freeFd task.fdTable ≠ none := by
  unfold currentFdAlloc FdTable.alloc
  cases kernel.currentTask with
  | none => simp
  | some task => cases free : FdTable.freeFd task.fdTable <;> simp [free]

theorem install_refuses_iff (entry : FdEntry) :
    Refuses (installEntry state entry).2 ↔ ¬HasRoom state := by
  unfold HasRoom
  rw [← alloc_none_iff entry]
  unfold installEntry
  dsimp only
  cases (currentFdAlloc state.kernel entry).2 with
  | none => exact iff_of_true (refuses_fails 24) rfl
  | some fd => exact iff_of_false (not_refuses_returns _ _) nofun

theorem has_room_fs (fs : RamFs) : HasRoom { state with fs := fs } ↔ HasRoom state := Iff.rfl

theorem touch_unchanged {fs : RamFs} {cwd : InodeIndex} {uid gid : BitVec 16}
    (creates : createsAt fs path cwd uid gid = none) : (fs.touch path cwd uid gid).1 = fs := by
  have effect := touch_effect fs path cwd uid gid
  generalize fs.touch path cwd uid gid = result at effect
  cases effect with
  | keeps => rfl
  | creates source missing resolved allowed vacant =>
      rcases source with ⟨same, _⟩ | other
      · cases same
        rw [creates_at_of_vacant missing resolved allowed vacant] at creates
        cases creates
      · cases other

theorem touch_changed {fs : RamFs} {cwd : InodeIndex} {uid gid : BitVec 16}
    (creates : (createsAt fs path cwd uid gid).isSome = true) :
    (fs.touch path cwd uid gid).1 ≠ fs := by
  obtain ⟨parent, creates⟩ := Option.isSome_iff_exists.mp creates
  obtain ⟨idx, vacant, made⟩ := creating_apply (.inl ⟨rfl, rfl⟩) creates
  intro same
  have unused := (alloc_unused vacant).1
  rw [← same, show (fs.touch path cwd uid gid).1 = _ from made, set_inode_same] at unused
  cases unused

theorem open_entry_fs (fs : RamFs) (cwd : InodeIndex) (flags : Nat) :
    (openEntry fs cwd path flags).1 =
      if openDevPath path = none ∧ flags.testBit 6 = true then (fs.touch path cwd 0 0).1
      else fs := by
  unfold openEntry
  cases openDevPath path with
  | some device => exact (if_neg (by simp)).symm
  | none =>
      dsimp only
      simp only [true_and]
      generalize (if flags.testBit 6 then (fs.touch path cwd 0 0).1 else fs) = touched
      split
      · dsimp only
        split_ifs
        · exact Truncation.inode_write_nothing touched _
        · rfl
      · split_ifs <;> rfl

theorem open_entry_some_iff {fs : RamFs} {cwd : InodeIndex} {flags : Nat}
    (regular : openDevPath path = none)
    (kept : (if flags.testBit 6 then (fs.touch path cwd 0 0).1 else fs) = fs) :
    (openEntry fs cwd path flags).2 ≠ none ↔
      ∃ idx ∈ fs.resolve path cwd,
        (flags.testBit 0 || flags.testBit 1) = true → (fs.inodes idx).kind ≠ .dir := by
  unfold openEntry
  rw [regular]
  dsimp only
  rw [kept]
  unfold RamFs.openCheck openDir
  cases found : fs.resolve path cwd with
  | none => simp
  | some idx =>
      rw [Option.bind_some, perm_root rfl]
      cases kind : (fs.inodes idx).kind with
      | file => simp [kind]
      | dir =>
          cases flags.testBit 0 || flags.testBit 1 <;> simp [kind, Option.filter]

theorem open_from_matches (kernel : FileKernel) (slot : Slot) (task : TaskFiles)
    (cwd : InodeIndex) (flags : Nat) :
    (kernel.openFrom slot task cwd path flags).1.fs = (openEntry kernel.fs cwd path flags).1 ∧
      ((kernel.openFrom slot task cwd path flags).2 = -2 ↔
        (openEntry kernel.fs cwd path flags).2 = none) := by
  have allocated (later : FileKernel) (entry : FdEntry) (denoted : Nat) :
      (later.fdAlloc slot task entry denoted).1.fs = later.fs ∧
        (later.fdAlloc slot task entry denoted).2 ≠ -2 := by
    unfold FileKernel.fdAlloc
    cases FdTable.alloc task.fdTable entry with
    | none => exact ⟨rfl, (by decide : (-24 : Int) ≠ -2)⟩
    | some opened => exact ⟨rfl, by dsimp only; omega⟩
  unfold FileKernel.openFrom openEntry
  cases openDevPath path with
  | some device => exact ⟨(allocated _ _ _).1, iff_of_false (allocated _ _ _).2 nofun⟩
  | none =>
      dsimp only
      rw [show (if flags.testBit 6 then (kernel.fs.touch path cwd 0 0).1 else kernel.fs) =
          (if flags.testBit 6 then kernel.withFs (kernel.fs.touch path cwd 0 0).1 else kernel).fs by
        split <;> rfl]
      generalize (if flags.testBit 6 then kernel.withFs (kernel.fs.touch path cwd 0 0).1
        else kernel) = touched
      cases touched.fs.openCheck path cwd 0 0 (flags.testBit 0 || flags.testBit 1) with
      | some inode =>
          refine ⟨(allocated _ _ _).1.trans ?_, iff_of_false (allocated _ _ _).2 nofun⟩
          split <;> rfl
      | none =>
          cases flags.testBit 0 || flags.testBit 1 with
          | true => exact ⟨rfl, iff_of_true rfl rfl⟩
          | false =>
              cases openDir touched.fs path cwd with
              | some dir => exact ⟨(allocated _ _ _).1, iff_of_false (allocated _ _ _).2 nofun⟩
              | none => exact ⟨rfl, iff_of_true rfl rfl⟩

theorem open_path_fs (flags : Nat) : (openPath state flags path).1.fs =
    if openDevPath path = none ∧ flags.testBit 6 = true then
      (state.fs.touch path state.cwd 0 0).1
    else state.fs := by
  rw [← open_entry_fs state.fs state.cwd flags]
  unfold openPath
  cases openEntry state.fs state.cwd path flags with
  | mk fs entry => cases entry <;> rfl

theorem open_refused_iff (flags : Nat) :
    Refuses (openPath state flags path).2 ∧ (openPath state flags path).1.fs = state.fs ↔
      ¬Finds state path (.sysOpen flags) := by
  have refused : Refuses (openPath state flags path).2 ↔
      ¬(HasRoom state ∧ (openEntry state.fs state.cwd path flags).2 ≠ none) := by
    unfold openPath
    cases openEntry state.fs state.cwd path flags with
    | mk fs entry =>
        cases entry with
        | none => exact iff_of_true (refuses_fails 2) fun both => both.2 rfl
        | some entry =>
            dsimp only
            rw [install_refuses_iff, has_room_fs]
            simp
  rw [open_path_fs, refused]
  unfold Finds
  cases device : openDevPath path with
  | some entry =>
      have opens : (openEntry state.fs state.cwd path flags).2 ≠ none := by
        unfold openEntry
        rw [device]
        exact nofun
      simp [opens]
  | none =>
      by_cases creating : flags.testBit 6 = true ∧
          (createsAt state.fs path state.cwd 0 0).isSome = true
      · rw [if_pos ⟨rfl, creating.1⟩]
        refine iff_of_false ?_ (not_not.mpr (.inl ⟨rfl, creating⟩))
        exact fun both => touch_changed creating.2 both.2
      · have kept : (if flags.testBit 6 then (state.fs.touch path state.cwd 0 0).1 else state.fs) =
            state.fs := by
          split_ifs with asked
          · apply touch_unchanged
            by_contra creates
            exact creating ⟨asked, Option.isSome_iff_ne_none.mpr creates⟩
          · rfl
        rw [open_entry_some_iff device kept]
        simp only [true_and]
        rw [and_iff_left kept, or_iff_right creating, or_iff_right (not_not.mpr rfl)]

theorem mkdir_refused_iff (mode : Address) :
    Refuses (mkdirPath state mode path).2 ∧ (mkdirPath state mode path).1.fs = state.fs ↔
      ¬Finds state path (.sysMkdir mode) := by
  unfold mkdirPath Finds makesAt RamFs.mkdir
  dsimp only
  cases state.fs.resolveParent path state.cwd with
  | none => simp [refuses_fails]
  | some parent =>
      cases kind : (state.fs.inodes parent).kind with
      | file => simp [refuses_fails, Option.filter, kind]
      | dir =>
          cases taken : state.fs.lookupIn parent (splitParent path).2 with
          | some found => simp [refuses_fails, Option.filter, perm_root, kind, taken]
          | none =>
              unfold RamFs.create
              cases vacant : state.fs.alloc <;>
                simp [refuses_fails, not_refuses_returns, Option.filter, perm_root, kind, taken]

theorem rmdir_refused_iff :
    Refuses (rmdirPath state path).2 ∧ (rmdirPath state path).1.fs = state.fs ↔
      ¬Finds state path .sysRmdir := by
  unfold rmdirPath Finds RamFs.rmdir
  cases state.fs.resolve path state.cwd with
  | none => simp [refuses_fails]
  | some idx =>
      by_cases isRoot : idx = rootInode
      · simp [refuses_fails, isRoot]
      · cases kind : (state.fs.inodes idx).kind <;> cases occupied : state.fs.hasChild idx <;>
          simp [refuses_fails, not_refuses_returns, perm_root, isRoot, kind, occupied]

theorem unlink_refused_iff :
    Refuses (unlinkPath state path).2 ∧ (unlinkPath state path).1.fs = state.fs ↔
      ¬Finds state path .sysUnlink := by
  unfold unlinkPath Finds RamFs.unlink
  cases state.fs.resolve path state.cwd with
  | none => simp [refuses_fails]
  | some idx =>
      dsimp only
      by_cases isRoot : idx = rootInode
      · simp [refuses_fails, isRoot]
      · cases kind : (state.fs.inodes idx).kind <;>
          simp [refuses_fails, not_refuses_returns, isRoot, kind]

theorem chdir_refused_iff :
    Refuses (chdirPath state path).2 ∧ (chdirPath state path).1.fs = state.fs ↔
      ¬Finds state path .sysChdir := by
  unfold chdirPath Finds openDir
  cases state.fs.resolve path state.cwd with
  | none => simp [refuses_fails]
  | some idx =>
      cases kind : (state.fs.inodes idx).kind <;>
        simp [refuses_fails, not_refuses_returns, Option.filter, kind]

theorem stat_refused_iff (buf : Address) (pointed : buf ≠ 0) :
    Refuses (statPath state state.cwd path buf) ↔ ¬Finds state path (.sysStat buf) := by
  unfold statPath
  dsimp only [Finds]
  rw [and_iff_right pointed]
  cases devStat path with
  | some stat => simp [fillStat, not_refuses_returns]
  | none =>
      cases state.fs.resolve path state.cwd with
      | none => simp [refuses_fails]
      | some idx =>
          unfold fillInodeStat
          dsimp only
          rw [if_neg pointed, dif_pos idx.isLt]
          cases used : (state.fs.inodes idx).used <;>
            simp [refuses_fails, not_refuses_returns, fillStat, used]

theorem operate_refused_iff {call : PathCall}
    (pointed : ∀ buf, call = .sysStat buf → buf ≠ 0) :
    Refuses (operate state path call).2 ∧ (operate state path call).1.fs = state.fs ↔
      ¬Finds state path call := by
  cases call with
  | sysOpen flags => exact open_refused_iff flags
  | sysMkdir mode => exact mkdir_refused_iff mode
  | sysRmdir => exact rmdir_refused_iff
  | sysUnlink => exact unlink_refused_iff
  | sysChdir => exact chdir_refused_iff
  | sysStat buf =>
      rw [← stat_refused_iff buf (pointed buf rfl)]
      exact and_iff_left rfl

theorem operate_fs (call : PathCall) : (operate state path call).1.fs =
    (fsOperation state.cwd path call).elim state.fs fun operation =>
      (state.fs.apply operation).1 := by
  cases call with
  | sysOpen flags =>
      change (openPath state flags path).1.fs = _
      rw [open_path_fs]
      dsimp only [fsOperation]
      split <;> rfl
  | sysMkdir mode => rfl
  | sysRmdir => rfl
  | sysUnlink => rfl
  | sysChdir =>
      change (chdirPath state path).1.fs = state.fs
      unfold chdirPath
      cases openDir state.fs path state.cwd <;> rfl
  | sysStat buf => rfl

/-- What `mkdir` and `touch` leave at the inode that they take. -/
theorem created_named {fs : RamFs} {operation : Operation} {cwd idx : InodeIndex}
    {uid gid : BitVec 16}
    (source : (∃ mode, operation = .mkdir path cwd uid gid mode) ∨
      operation = .touch path cwd uid gid)
    (created : createdInode fs operation = some idx) :
    (fs.inodes idx).used = false ∧ ((fs.apply operation).1.inodes idx).used = true ∧
      ((fs.apply operation).1.inodes idx).name = (lastName path).take maxName := by
  rw [← split_parent_name]
  rcases source with ⟨mode, rfl⟩ | rfl
  · obtain ⟨parent, makes, vacant⟩ := Option.bind_eq_some_iff.mp created
    obtain ⟨resolved, checks⟩ := Option.filter_eq_some_iff.mp makes
    simp only [Bool.and_eq_true, beq_iff_eq, Option.isNone_iff_eq_none] at checks
    obtain ⟨⟨⟨isDir, allowed⟩, absent⟩, -⟩ := checks
    refine ⟨(alloc_unused vacant).1, ?_⟩
    simp [RamFs.apply, RamFs.mkdir, RamFs.create, resolved, isDir, allowed, absent, vacant,
      RamFs.newInode, Inode.setContent, Inode.setName]
  · obtain ⟨parent, creates, vacant⟩ := Option.bind_eq_some_iff.mp created
    obtain ⟨other, same, after⟩ := creating_apply (.inl ⟨rfl, rfl⟩) creates
    rw [vacant] at same
    cases same
    rw [after, set_inode_same]
    exact ⟨(alloc_unused vacant).1, rfl, rfl⟩

theorem made_named {call : PathCall} {idx : InodeIndex}
    (made : madeEntry state path call = some idx) :
    (state.fs.inodes idx).used = false ∧
      ((operate state path call).1.fs.inodes idx).used = true ∧
      ((operate state path call).1.fs.inodes idx).name = (lastName path).take maxName := by
  obtain ⟨operation, stands, created⟩ := Option.bind_eq_some_iff.mp made
  rw [operate_fs, stands]
  cases call with
  | sysOpen flags =>
      dsimp only [fsOperation] at stands
      split at stands
      · cases stands
        exact created_named (.inr rfl) created
      · cases stands
  | sysMkdir mode =>
      cases stands
      exact created_named (.inl ⟨_, rfl⟩) created
  | sysRmdir =>
      cases stands
      cases created
  | sysUnlink =>
      cases stands
      cases created
  | sysChdir => cases stands
  | sysStat buf => cases stands

theorem names_made_iff (call : PathCall) :
    NamesMade state.fs (operate state path call).1.fs path ↔ ¬CutsName state path call := by
  constructor
  · rintro named ⟨makes, long⟩
    obtain ⟨idx, made⟩ := Option.ne_none_iff_exists'.mp makes
    obtain ⟨unused, isUsed, cut⟩ := made_named made
    rw [named idx unused isUsed, eq_comm, List.take_eq_self_iff] at cut
    omega
  · intro whole idx unused isUsed
    have made : madeEntry state path call = some idx := by
      rw [operate_fs] at isUsed
      unfold madeEntry
      cases operation : fsOperation state.cwd path call with
      | none =>
          rw [operation, Option.elim_none, unused] at isUsed
          cases isUsed
      | some operation' =>
          rw [operation] at isUsed
          rcases apply_used isUsed with before | created
          · rw [unused] at before
            cases before
          · exact created
    rw [(made_named made).2.2, List.take_of_length_le]
    by_contra long
    exact whole ⟨Option.ne_none_iff_exists'.mpr ⟨idx, made⟩, Nat.lt_of_not_le long⟩

variable {pathPtr : Address} {string : Bytes}

theorem read_path_held {memory : UserMemory} (held : HoldsString memory pathPtr string) :
    memory.readPath pathPtr =
      if isText (string.take limit) then some (string.take limit) else none := by
  obtain ⟨present, stored, plain⟩ := held
  rw [UserMemory.readPath, if_neg present]
  dsimp only
  rw [read_until_nul_held 256 stored plain]
  rfl

theorem perform_eq_with_path {call : PathCall} (present : pathPtr ≠ 0)
    (pointed : ∀ buf, call = .sysStat buf → buf ≠ 0) :
    perform state pathPtr call = withPath state pathPtr call := by
  cases call with
  | sysOpen flags => exact if_neg present
  | sysMkdir mode => rfl
  | sysRmdir => rfl
  | sysUnlink => rfl
  | sysChdir => rfl
  | sysStat buf =>
      dsimp only [perform]
      rw [sysStat, if_neg (pointed buf rfl), withPath]
      cases state.memory.readPath pathPtr with
      | none => rfl
      | some path =>
          dsimp only
          split <;> rfl

theorem with_path_fails {call : PathCall}
    (unusable : ∀ path, state.memory.readPath pathPtr = some path → path = []) :
    withPath state pathPtr call = (state, fails 2) := by
  unfold withPath
  cases read : state.memory.readPath pathPtr with
  | none => rfl
  | some path => exact if_pos (unusable path read)

theorem acts_of_fails {call : PathCall} {errno : Nat}
    (fails' : perform state pathPtr call = (state, fails errno)) :
    ActsOnGiven state pathPtr string call := by
  left
  rw [fails']
  exact ⟨refuses_fails errno, rfl⟩

theorem cuts_no_empty (call : PathCall) : ¬CutsName state [] call :=
  fun cuts => absurd cuts.2 (by decide)

/-- Either the call fails before it looks at the filesystem, or it works on the first
256 bytes. -/
theorem perform_cases (held : HoldsString state.memory pathPtr string) (call : PathCall) :
    (∃ errno, perform state pathPtr call = (state, fails errno)) ∧
        (string.length ≤ limit ∧ ¬CutsName state string call ∨
          isText (string.take limit) = false ∨ ¬Finds state (string.take limit) call) ∨
      perform state pathPtr call = operate state (string.take limit) call ∧
        state.memory.readPath pathPtr = some (string.take limit) ∧
        isText (string.take limit) = true ∧ ∀ buf, call = .sysStat buf → buf ≠ 0 := by
  have read := read_path_held held
  by_cases pointed : ∀ buf, call = .sysStat buf → buf ≠ 0
  · rw [perform_eq_with_path held.1 pointed]
    cases text : isText (string.take limit) with
    | false =>
        rw [text] at read
        refine .inl ⟨⟨2, with_path_fails fun path other => ?_⟩, .inr (.inl rfl)⟩
        rw [read] at other
        cases other
    | true =>
        rw [text, if_pos rfl] at read
        by_cases isEmpty : string.take limit = []
        · obtain rfl : string = [] := (List.take_eq_nil_iff.mp isEmpty).resolve_left nofun
          refine .inl ⟨⟨2, with_path_fails fun path other => ?_⟩,
            .inl ⟨Nat.zero_le _, cuts_no_empty call⟩⟩
          rw [read] at other
          exact (Option.some.inj other).symm
        · refine .inr ⟨?_, read, rfl, pointed⟩
          rw [withPath, read]
          exact if_neg isEmpty
  · obtain ⟨buf, rfl, null⟩ : ∃ buf, call = .sysStat buf ∧ buf = 0 := by
      simpa using pointed
    have absent : ¬Finds state (string.take limit) (.sysStat buf) := fun finds => finds.1 null
    refine .inl ⟨⟨14, ?_⟩, .inr (.inr absent)⟩
    rw [perform, sysStat, if_pos null]

/-- For any state and any string: the call acts on the string exactly if the string
is within the limit and no name is cut, or there is nothing at its first 256 bytes. -/
theorem acts_on_given_iff (held : HoldsString state.memory pathPtr string) (call : PathCall) :
    ActsOnGiven state pathPtr string call ↔
      string.length ≤ limit ∧ ¬CutsName state string call ∨
        isText (string.take limit) = false ∨ ¬Finds state (string.take limit) call := by
  rcases perform_cases held call with ⟨⟨errno, failed⟩, met⟩ | ⟨works, read, text, pointed⟩
  · exact iff_of_true (acts_of_fails failed) met
  · unfold ActsOnGiven
    rw [works, operate_refused_iff pointed, read, text, Option.some.injEq, List.take_eq_self_iff,
      ← names_made_iff]
    constructor
    · rintro (absent | ⟨short, _, named⟩)
      · exact .inr (.inr absent)
      · rw [List.take_of_length_le short] at named
        exact .inl ⟨short, named⟩
    · rintro (⟨short, named⟩ | other | absent)
      · rw [List.take_of_length_le short]
        exact .inr ⟨short, rfl, named⟩
      · cases other
      · exact .inl absent

end

section

variable {image : KernelImage} {Store : Type} (allocator : PageAllocator image Store)
  (state : ExecveState Store) (pathPtr argvPtr envpPtr : Address)

/-- The call fails, or it starts the file that is at the string itself. -/
def ExecutesGiven (string : Bytes) : Prop :=
  (state.sysExecve allocator pathPtr argvPtr envpPtr).result ≠ 0 ∨
    ∃ data, state.execFile pathPtr = .ok (string, data)

/-- There is a program at the path, and what it takes to start it. -/
structure Starts (path : Bytes) : Prop where
  running : state.system.kernel.currentTask ≠ none
  program : ∃ data ∈ state.fs.readAt path state.cwd 0 0, isElf (bits data) = true ∧
    (buildStack allocator (bits data) state.system.space).1 ≠ none
  room : Fits userStackSize
    (startArgv (bits path) ((userCstrArray state.memory argvPtr maxExecVec).map bits))
    ((userCstrArray state.memory envpPtr maxExecVec).map bits)

variable {allocator state pathPtr argvPtr envpPtr} {string : Bytes}

theorem user_cstrs_few (memory : UserMemory) (room : Nat) (ptrs : Address) :
    (userCstrs memory room ptrs).length ≤ room := by
  induction room generalizing ptrs with
  | zero => exact Nat.le_refl 0
  | succ room ih =>
      unfold userCstrs
      split
      · exact Nat.zero_le _
      · split
        · exact Nat.succ_le_succ (ih _)
        · exact Nat.zero_le _

theorem user_cstr_array_few (memory : UserMemory) (ptr : Address) (room : Nat) :
    ((userCstrArray memory ptr room).map bits).length ≤ room := by
  rw [List.length_map]
  unfold userCstrArray
  split
  · exact Nat.zero_le _
  · exact user_cstrs_few memory room ptr

theorem execve_current_starts_iff (data : List (BitVec 8)) (argv0 : Bytes) :
    (state.execveCurrent allocator data argv0 argvPtr envpPtr).2 ≠ none ↔
      state.system.kernel.currentTask ≠ none ∧
        (buildStack allocator data state.system.space).1 ≠ none ∧
        Fits userStackSize
          (startArgv (bits argv0) ((userCstrArray state.memory argvPtr maxExecVec).map bits))
          ((userCstrArray state.memory envpPtr maxExecVec).map bits) := by
  have fewArgv := user_cstr_array_few state.memory argvPtr maxExecVec
  have fewEnvp := user_cstr_array_few state.memory envpPtr maxExecVec
  unfold ExecveState.execveCurrent System.execveCurrent
  dsimp only
  generalize (userCstrArray state.memory argvPtr maxExecVec).map bits = argv at fewArgv ⊢
  generalize (userCstrArray state.memory envpPtr maxExecVec).map bits = envp at fewEnvp ⊢
  rw [load_exec_image_eq]
  cases built : buildStack allocator data state.system.space with
  | mk result middle =>
      cases result with
      | none =>
          rw [Fallible.bind_none built]
          exact iff_of_false (not_not.mpr rfl) fun all => all.2.1 rfl
      | some made =>
          obtain ⟨pt, loaded, phys⟩ := made
          rw [Fallible.bind_some built, and_iff_right (Option.some_ne_none _)]
          have aligned := (build_stack_ends data state.system.space).1 _ _ built
          have ends := @setup_abi_stack_ends _ middle (stackRegion phys aligned) argv envp loaded
            (bits argv0) state.seed ⟨fewArgv, fewEnvp⟩
          change Fallible.Ends (setupAbiStack phys userStackSize userElfStackTop (bits argv0)
            argv envp loaded state.seed) middle _ _ at ends
          cases set : setupAbiStack phys userStackSize userElfStackTop (bits argv0) argv envp
              loaded state.seed middle with
          | mk result after =>
              cases result with
              | none =>
                  rw [Fallible.bind_none set]
                  exact iff_of_false (not_not.mpr rfl) fun both => (ends.2 after set).1 both.2
              | some rsp =>
                  rw [Fallible.bind_some set]
                  have fits := (ends.1 rsp after set).2.fits
                  cases running : state.system.kernel.currentTask with
                  | none => exact iff_of_false (not_not.mpr rfl) fun both => both.1 rfl
                  | some task => exact iff_of_true nofun ⟨Option.some_ne_none _, fits⟩

theorem exec_file_ok_iff (held : HoldsString state.memory pathPtr string) {path : Bytes}
    {data : List (BitVec 8)} :
    state.execFile pathPtr = .ok (path, data) ↔
      string ≠ [] ∧ isText (string.take limit) = true ∧ path = string.take limit ∧
        ∃ bytes ∈ state.fs.readAt (string.take limit) state.cwd 0 0,
          isElf (bits bytes) = true ∧ data = bits bytes := by
  have filled : string.take limit = [] ↔ string = [] :=
    ⟨fun isEmpty => (List.take_eq_nil_iff.mp isEmpty).resolve_left nofun,
      fun isEmpty => by rw [isEmpty]; rfl⟩
  rw [ExecveState.execFile, if_neg held.1, read_path_held held]
  cases isText (string.take limit) with
  | false => simp
  | true =>
      simp only [if_true, filled]
      by_cases isEmpty : string = []
      · simp [isEmpty]
      · cases state.fs.readAt (string.take limit) state.cwd 0 0 with
        | none => simp [isEmpty]
        | some bytes =>
            cases elf : isElf (bits bytes) with
            | false => simp [isEmpty, elf]
            | true =>
                simp only [isEmpty, elf, if_true, if_false, Except.ok.injEq, Prod.mk.injEq,
                  ne_eq, not_false_iff, Option.mem_some_iff, true_and]
                constructor
                · rintro ⟨rfl, rfl⟩
                  exact ⟨rfl, bytes, rfl, elf, rfl⟩
                · rintro ⟨rfl, _, rfl, _, rfl⟩
                  exact ⟨rfl, rfl⟩

theorem sys_execve_zero_iff (held : HoldsString state.memory pathPtr string) :
    (state.sysExecve allocator pathPtr argvPtr envpPtr).result = 0 ↔
      string ≠ [] ∧ isText (string.take limit) = true ∧
        Starts allocator state argvPtr envpPtr (string.take limit) := by
  have zero : (state.sysExecve allocator pathPtr argvPtr envpPtr).result = 0 ↔
      ∃ path data, state.execFile pathPtr = .ok (path, data) ∧
        (state.execveCurrent allocator data path argvPtr envpPtr).2 ≠ none := by
    unfold ExecveState.sysExecve
    cases read : state.execFile pathPtr with
    | error errno =>
        exact iff_of_false (exec_file_error read).ne fun ⟨_, _, other, _⟩ => nomatch other
    | ok found =>
        dsimp only
        cases ran : state.execveCurrent allocator found.2 found.1 argvPtr envpPtr with
        | mk system context => cases context <;> simp [ran, Prod.ext_iff]
  rw [zero]
  simp only [exec_file_ok_iff held, execve_current_starts_iff]
  constructor
  · rintro ⟨_, _, ⟨filled, text, rfl, bytes, read, elf, rfl⟩, running, built, fits⟩
    exact ⟨filled, text, running, ⟨bytes, read, elf, built⟩, fits⟩
  · rintro ⟨filled, text, running, ⟨bytes, read, elf, built⟩, fits⟩
    exact ⟨_, _, ⟨filled, text, rfl, bytes, read, elf, rfl⟩, running, built, fits⟩

/-- For any state and any string: the call starts the file at the string exactly if the
string is within the limit, or there is nothing to start at its first 256 bytes. -/
theorem executes_given_iff (held : HoldsString state.memory pathPtr string) :
    ExecutesGiven allocator state pathPtr argvPtr envpPtr string ↔
      string.length ≤ limit ∨ isText (string.take limit) = false ∨
        ¬Starts allocator state argvPtr envpPtr (string.take limit) := by
  by_cases started : (state.sysExecve allocator pathPtr argvPtr envpPtr).result = 0
  · obtain ⟨filled, text, starts⟩ := (sys_execve_zero_iff held).mp started
    obtain ⟨bytes, read, elf, _⟩ := starts.program
    simp only [ExecutesGiven, started, ne_eq, not_true, false_or, exec_file_ok_iff held, text,
      not_not.mpr starts, or_false, Bool.true_eq_false]
    rw [← List.take_eq_self_iff]
    constructor
    · rintro ⟨_, _, _, same, _⟩
      exact same.symm
    · intro same
      exact ⟨_, filled, trivial, same.symm, bytes, read, elf, rfl⟩
  · refine iff_of_true (.inl started) ?_
    by_contra unmet
    simp only [not_or, not_not, Bool.not_eq_false] at unmet
    obtain ⟨long, text, starts⟩ := unmet
    refine started ((sys_execve_zero_iff held).mpr ⟨?_, text, starts⟩)
    rintro rfl
    exact long (Nat.zero_le _)

end

/-- All seven calls. -/
theorem path_calls_iff (pathPtr : Address) (string : Bytes) :
    (∀ (state : SyscallState) (call : PathCall),
      HoldsString state.memory pathPtr string →
        (ActsOnGiven state pathPtr string call ↔
          string.length ≤ limit ∧ ¬CutsName state string call ∨
            isText (string.take limit) = false ∨ ¬Finds state (string.take limit) call)) ∧
      ∀ {image : KernelImage} {Store : Type} (allocator : PageAllocator image Store)
        (state : ExecveState Store) (argvPtr envpPtr : Address),
        HoldsString state.memory pathPtr string →
          (ExecutesGiven allocator state pathPtr argvPtr envpPtr string ↔
            string.length ≤ limit ∨ isText (string.take limit) = false ∨
              ¬Starts allocator state argvPtr envpPtr (string.take limit)) :=
  ⟨fun _ call held => acts_on_given_iff held call,
    fun _ _ _ _ held => executes_given_iff held⟩

/-- A task with a string at `0x9000`. -/
def pathCaller (string : Bytes) : SyscallState where
  kernel := FailedPipes.runningWith fun _ => .empty
  fs := RamFs.init []
  memory := fun address => string.getD (address.toNat - 0x9000) 0
  serialByte := none
  keyByte := none
  hasInput := false
  entropy := fun _ => 0
  versionFull := []
  elsewhere := fun _ _ => none
  located := by
    intro task present
    cases present
    decide

/-- `/etc/motd` is removed by its name, and `/bin/hello` started by its name. -/
theorem short_paths_given :
    ActsOnGiven (pathCaller motdPath) 0x9000 motdPath .sysUnlink ∧
      ExecutesGiven (BitmapPages.PageSupply.pageAllocator HeapRegions.smallImage) (callerState 1)
        0xA000 0x8000 0 RamFs.helloPath := by
  constructor
  · refine ((path_calls_iff _ _).1 _ _ ⟨by decide, by decide +kernel, by decide⟩).mpr (.inl ?_)
    exact ⟨by decide, fun cuts => absurd cuts.2 (by decide)⟩
  · refine ((path_calls_iff _ _).2 _ _ _ _ ⟨by decide, by decide +kernel, by decide⟩).mpr (.inl ?_)
    decide

/-- `//…/etc/motd.bak`, with `/etc/motd` in its first 256 bytes. -/
def longPath : Bytes :=
  List.replicate 247 slash ++ motdPath ++ ascii ['.', 'b', 'a', 'k']

/-- A path that names nothing is removed, and `/etc/motd` is gone. -/
theorem motd_removed :
    HoldsString (pathCaller longPath).memory 0x9000 longPath ∧
      (RamFs.init []).resolve longPath rootInode = none ∧
      (perform (pathCaller longPath) 0x9000 .sysUnlink).2.result = some (.value 0) ∧
      (RamFs.init []).resolve motdPath rootInode ≠ none ∧
      (perform (pathCaller longPath) 0x9000 .sysUnlink).1.fs.resolve motdPath
        rootInode = none ∧
      ¬ActsOnGiven (pathCaller longPath) 0x9000 longPath .sysUnlink := by
  have held : HoldsString (pathCaller longPath).memory 0x9000 longPath :=
    ⟨by decide, by decide +kernel, by decide +kernel⟩
  have read : (pathCaller longPath).memory.readPath 0x9000 = some (longPath.take limit) := by
    rw [read_path_held held]
    exact if_pos (AsciiText.valid_utf8 (by decide +kernel))
  have works : perform (pathCaller longPath) 0x9000 .sysUnlink =
      operate (pathCaller longPath) (longPath.take limit) .sysUnlink := by
    rw [perform_eq_with_path held.1 (fun _ other => by cases other), withPath, read]
    exact if_neg (by decide +kernel)
  have succeeds : (perform (pathCaller longPath) 0x9000 .sysUnlink).2.result =
      some (.value 0) := by
    rw [works]
    decide +kernel
  refine ⟨held, by decide +kernel, succeeds, by decide +kernel, ?_, ?_⟩
  · rw [works]
    decide +kernel
  · rintro (⟨⟨errno, refused⟩, _⟩ | ⟨whole, _⟩)
    · rw [succeeds] at refused
      cases refused
    · rw [read] at whole
      exact absurd whole (by decide +kernel)

end Ferrugem.PathSyscalls
