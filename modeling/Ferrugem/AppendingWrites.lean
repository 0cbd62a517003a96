import Ferrugem.InodeWrites
import Ferrugem.LocalChanges
import Ferrugem.Truncation

/-!
# Descriptors opened with `O_APPEND`

`sys_open` places a descriptor opened with `O_APPEND` at the end the file has at
that moment, and `sys_write` goes on from where the descriptor stands. The writes
of several such descriptors stay apart exactly while each of them is made at the
end the file has when it is made.
-/

namespace Ferrugem.AppendingWrites

open Ferrugem.ProcessModel Ferrugem.SchedulerModel Ferrugem.RamFsModel
open Ferrugem.FileSyscalls Ferrugem.DescriptorIdentity Ferrugem.InodeWrites
open Ferrugem.Truncation Ferrugem.LocalChanges

set_option autoImplicit false

/-- The bytes of one `sys_write` that were accepted, and their place. -/
structure AcceptedWrite where
  offset : Nat
  bytes : Bytes
  deriving DecidableEq

/-- Where a writable descriptor for the file `idx` stands. -/
def writableOffset (task : TaskFiles) (idx : InodeIndex) (fd : Nat) : Option Nat :=
  match FdTable.get task.fdTable fd with
  | some (.vfsFile inode offset true) => if inode = idx.val then some offset else none
  | _ => none

/-- What `sys_write` accepts into the file `idx`. -/
def acceptedWrite (idx : InodeIndex) (state : FileKernel) : FileAction → Option AcceptedWrite
  | .sysWrite slot fd content =>
      (state.tasks slot).bind fun task =>
        (writableOffset task idx fd).bind fun offset =>
          let count := (state.fs.inodeWrite idx offset content).2
          if count = 0 then none else some ⟨offset, content.take count⟩
  | _ => none

/-- The calls of the tasks, with the writes to one file. -/
def appendSystem (idx : InodeIndex) (start : FileKernel) :
    EventSystem FileKernel FileAction AcceptedWrite where
  init := start
  step := fun state action => ((state.step action).1, acceptedWrite idx state action)

def Apart (first second : AcceptedWrite) : Prop :=
  first.offset + first.bytes.length ≤ second.offset ∨
    second.offset + second.bytes.length ≤ first.offset

instance decidableApart (first second : AcceptedWrite) : Decidable (Apart first second) :=
  inferInstanceAs (Decidable (_ ∨ _))

/-- Every accepted byte is in the file, at a place of its own. -/
structure Intact (fs : RamFs) (idx : InodeIndex) (writes : List AcceptedWrite) : Prop where
  apart : writes.Pairwise Apart
  present : ∀ write ∈ writes, ∀ k, k < write.bytes.length →
    (contentOf fs idx)[write.offset + k]? = write.bytes[k]?

def openedForWriting (fs : RamFs) (cwd : InodeIndex) (path : Bytes) (flags : Nat) :
    Option InodeIndex :=
  if flags.testBit 0 || flags.testBit 1 then
    (if flags.testBit 6 then (fs.touch path cwd 0 0).1 else fs).openCheck path cwd 0 0 true
  else none

structure SameFileBytes (idx : InodeIndex) (before after : RamFs) : Prop where
  used : (after.inodes idx).used = (before.inodes idx).used
  kind : (after.inodes idx).kind = (before.inodes idx).kind
  data : (after.inodes idx).data = (before.inodes idx).data
  size : (after.inodes idx).size = (before.inodes idx).size

/-- The file is opened for writing with `O_APPEND` only, its writable descriptors
are not positioned, and nothing but `sys_write` changes its bytes. -/
def AppendsOnly (idx : InodeIndex) (state : FileKernel) : FileAction → Prop
  | .sysOpen slot path flags => ∀ task ∈ state.tasks slot,
      openedForWriting state.fs task.cwd path flags = some idx → flags.testBit 10 = true
  | .sysOpenat slot dirfd path flags => ∀ task ∈ state.tasks slot,
      openedForWriting state.fs (task.atCwd dirfd) path flags = some idx → flags.testBit 10 = true
  | .sysWrite _ _ content => content.length < 2 ^ 63
  | .sysLseek slot fd _ _ => ∀ task ∈ state.tasks slot, writableOffset task idx fd = none
  | .change operation => SameFileBytes idx state.fs (state.fs.apply operation).1
  | _ => True

/-- The file is there, and the writable descriptors it has stand at its end. -/
structure Fresh (idx : InodeIndex) (state : FileKernel) : Prop where
  isUsed : (state.fs.inodes idx).used = true
  isFile : (state.fs.inodes idx).kind = .file
  atEnd : ∀ slot, ∀ task ∈ state.tasks slot, ∀ fd : Fd, ∀ offset ∈ writableOffset task idx fd.val,
    offset = (state.fs.inodes idx).size

/-- A write to the file is made at its end, or is empty, or the file is full there. -/
def WritesAtEnd (idx : InodeIndex) (state : FileKernel) : FileAction → Prop
  | .sysWrite slot fd content => ∀ task ∈ state.tasks slot, ∀ offset ∈ writableOffset task idx fd,
      offset = (state.fs.inodes idx).size ∨ content = [] ∨ maxData ≤ offset
  | _ => True

def TablePlaced (idx : InodeIndex) (least size : Nat) (table : FdTable) : Prop :=
  ∀ fd offset, table fd = .vfsFile idx.val offset true → least ≤ offset ∧ offset ≤ size

structure Tracked (idx : InodeIndex) (least : Nat) (state : FileKernel) : Prop where
  isUsed : (state.fs.inodes idx).used = true
  isFile : (state.fs.inodes idx).kind = .file
  grows : least ≤ (state.fs.inodes idx).size
  placed : ∀ slot, ∀ task ∈ state.tasks slot,
    TablePlaced idx least (state.fs.inodes idx).size task.fdTable

theorem writable_offset_entry {task : TaskFiles} {idx : InodeIndex} {fd offset : Nat}
    (stands : writableOffset task idx fd = some offset) :
    ∃ bound : fd < maxFds, task.fdTable ⟨fd, bound⟩ = .vfsFile idx.val offset true := by
  unfold writableOffset at stands
  split at stands
  · rename_i inode place found
    split_ifs at stands with same
    cases stands
    subst same
    exact get_entry found
  · cases stands

theorem entry_writable_offset {task : TaskFiles} {idx : InodeIndex} {fd : Fd} {offset : Nat}
    (entry : task.fdTable fd = .vfsFile idx.val offset true) :
    writableOffset task idx fd.val = some offset := by
  unfold writableOffset FdTable.get
  simp only [fd.isLt, dif_pos, entry, if_pos]

section

variable {idx : InodeIndex} {least size : Nat} {table : FdTable}

theorem placed_update (placed : TablePlaced idx least size table) {fd : Fd} {entry : FdEntry}
    (stands : ∀ offset, entry = .vfsFile idx.val offset true → least ≤ offset ∧ offset ≤ size) :
    TablePlaced idx least size (Function.update table fd entry) := by
  intro other offset found
  by_cases here : other = fd
  · rw [here, Function.update_self] at found
    exact stands offset found
  · rw [Function.update_of_ne here] at found
    exact placed other offset found

theorem placed_offset (placed : TablePlaced idx least size table) {fd next : Nat}
    (stands : ∀ bound : fd < maxFds, ∀ offset,
      table ⟨fd, bound⟩ = .vfsFile idx.val offset true → least ≤ next ∧ next ≤ size) :
    TablePlaced idx least size (setOffset table fd next) := by
  unfold setOffset
  split_ifs with bound
  · split
    · rename_i inode old writable entry
      apply placed_update placed
      intro offset same
      cases same
      exact stands bound old entry
    · exact placed
  · exact placed

theorem placed_close (placed : TablePlaced idx least size table) {fd : Nat} {closed : FdEntry}
    {after : FdTable} (closes : FdTable.close table fd = some (closed, after)) :
    TablePlaced idx least size after := by
  unfold FdTable.close at closes
  split_ifs at closes with bound
  have emptied : after = Function.update table ⟨fd, bound⟩ .empty := by
    cases content : table ⟨fd, bound⟩ <;> rw [content] at closes <;> cases closes <;> rfl
  rw [emptied]
  exact placed_update placed nofun

theorem placed_mono {larger : Nat} (placed : TablePlaced idx least size table)
    (grows : size ≤ larger) : TablePlaced idx least larger table := by
  intro fd offset entry
  obtain ⟨after, before⟩ := placed fd offset entry
  exact ⟨after, le_trans before grows⟩

end

section

variable {idx : InodeIndex} {least : Nat} {state : FileKernel} {slot : Slot} {task : TaskFiles}

theorem same_bytes_of_eq {before after : RamFs} (same : after.inodes idx = before.inodes idx) :
    SameFileBytes idx before after :=
  ⟨congrArg Inode.used same, congrArg Inode.kind same, congrArg Inode.data same,
    congrArg Inode.size same⟩

theorem same_bytes_refl (fs : RamFs) : SameFileBytes idx fs fs := same_bytes_of_eq rfl

/-- `touch` takes no inode that is in use. -/
theorem touch_same_bytes {fs : RamFs} (isUsed : (fs.inodes idx).used = true) (path : Bytes)
    (cwd : InodeIndex) (uid gid : BitVec 16) :
    SameFileBytes idx fs (fs.touch path cwd uid gid).1 := by
  have changes := effect_local (touch_effect fs path cwd uid gid) nofun
  apply same_bytes_of_eq
  by_contra changed
  cases succeeded : (fs.touch path cwd uid gid).2 with
  | false => exact changed (changes.atomic succeeded idx)
  | true =>
      rcases changes.only succeeded idx changed with target | replaced
      · dsimp only [targetOf] at target
        split_ifs at target
        rw [(alloc_unused target).1] at isUsed
        cases isUsed
      · cases replaced

theorem inode_write_other {fs : RamFs} {other : InodeIndex} (different : idx ≠ other)
    (offset : Nat) (content : Bytes) :
    (fs.inodeWrite other offset content).1.inodes idx = fs.inodes idx := by
  unfold RamFs.inodeWrite
  dsimp only
  split_ifs
  · rfl
  · rfl
  · exact set_inode_other fs _ different

theorem tracked_put (tracked : Tracked idx least state)
    (placed : TablePlaced idx least (state.fs.inodes idx).size task.fdTable) :
    Tracked idx least (state.putTask slot task) where
  isUsed := tracked.isUsed
  isFile := tracked.isFile
  grows := tracked.grows
  placed := by
    intro other found present
    by_cases here : other = slot
    · simp only [here, FileKernel.putTask, Function.update_self, Option.mem_def,
        Option.some.injEq] at present
      rw [← present]
      exact placed
    · simp only [FileKernel.putTask, Function.update_of_ne here] at present
      exact tracked.placed other found present

theorem tracked_fs {fs : RamFs} (tracked : Tracked idx least state)
    (same : SameFileBytes idx state.fs fs) : Tracked idx least (state.withFs fs) where
  isUsed := same.used.trans tracked.isUsed
  isFile := same.kind.trans tracked.isFile
  grows := tracked.grows.trans_eq same.size.symm
  placed := by
    intro other found present
    have before := tracked.placed other found present
    rw [← same.size] at before
    exact before

theorem tracked_alloc (tracked : Tracked idx least state) (present : task ∈ state.tasks slot)
    {entry : FdEntry} (generation : Nat)
    (stands : ∀ offset, entry = .vfsFile idx.val offset true →
      least ≤ offset ∧ offset ≤ (state.fs.inodes idx).size) :
    Tracked idx least (state.fdAlloc slot task entry generation).1 := by
  unfold FileKernel.fdAlloc FdTable.alloc
  cases FdTable.freeFd task.fdTable with
  | none => exact tracked
  | some fd => exact tracked_put tracked (placed_update (tracked.placed slot task present) stands)

/-- A stage of `open` that only replaces the filesystem, if its flag asks for it. -/
theorem tracked_stage (tracked : Tracked idx least state) (present : task ∈ state.tasks slot)
    (asked : Bool) {fs : RamFs} (same : SameFileBytes idx state.fs fs) :
    SameFileBytes idx state.fs (if asked then state.withFs fs else state).fs ∧
      Tracked idx least (if asked then state.withFs fs else state) ∧
      task ∈ (if asked then state.withFs fs else state).tasks slot ∧
      (if asked then state.withFs fs else state).fs = if asked then fs else state.fs := by
  cases asked with
  | false => exact ⟨same_bytes_refl _, tracked, present, rfl⟩
  | true => exact ⟨same, tracked_fs tracked same, present, rfl⟩

theorem tracked_open (tracked : Tracked idx least state) (present : task ∈ state.tasks slot)
    {cwd : InodeIndex} {path : Bytes} {flags : Nat}
    (appends : openedForWriting state.fs cwd path flags = some idx → flags.testBit 10 = true) :
    SameFileBytes idx state.fs (state.openFrom slot task cwd path flags).1.fs ∧
      Tracked idx least (state.openFrom slot task cwd path flags).1 := by
  unfold FileKernel.openFrom
  split
  · rename_i device isDevice
    rw [fd_alloc_fs]
    refine ⟨same_bytes_refl _, tracked_alloc tracked present _ ?_⟩
    exact fun offset same => absurd same ((device_not_file isDevice).2 _ _ _)
  · dsimp only
    obtain ⟨touchedSame, touchedTracked, touchedPresent, touchedFs⟩ :=
      tracked_stage tracked present (flags.testBit 6) (touch_same_bytes tracked.isUsed path cwd 0 0)
    unfold openedForWriting at appends
    rw [← touchedFs] at appends
    generalize (if flags.testBit 6 then
        state.withFs (state.fs.touch path cwd 0 0).1 else state) = touched at *
    split
    · rename_i inode opened
      have nothing : (touched.fs.inodeWrite inode 0 []).1 = touched.fs :=
        inode_write_nothing touched.fs inode
      rw [nothing]
      obtain ⟨-, truncatedTracked, truncatedPresent, truncatedFs⟩ :=
        tracked_stage touchedTracked touchedPresent
          (flags.testBit 9 && (flags.testBit 0 || flags.testBit 1)) (same_bytes_refl touched.fs)
      rw [ite_self] at truncatedFs
      generalize (if flags.testBit 9 && (flags.testBit 0 || flags.testBit 1) then
          touched.withFs touched.fs else touched) = truncated at *
      rw [fd_alloc_fs, truncatedFs]
      refine ⟨touchedSame, tracked_alloc truncatedTracked truncatedPresent _ ?_⟩
      intro offset same
      injection same with sameInode sameOffset isWritable
      obtain rfl : inode = idx := Fin.ext sameInode
      rw [isWritable, if_pos rfl] at appends
      rw [isWritable] at opened
      rw [← sameOffset, appends opened, isWritable, if_pos (Bool.and_self true), ← truncatedFs]
      unfold inodeSize
      rw [truncatedTracked.isUsed, if_pos rfl]
      exact ⟨truncatedTracked.grows, le_rfl⟩
    · split_ifs
      · exact ⟨touchedSame, touchedTracked⟩
      · split
        · rw [fd_alloc_fs]
          exact ⟨touchedSame, tracked_alloc touchedTracked touchedPresent _ nofun⟩
        · exact ⟨touchedSame, touchedTracked⟩

theorem tracked_read (tracked : Tracked idx least state) (present : task ∈ state.tasks slot)
    (fd length : Nat) :
    (state.sysRead slot task fd length).1.fs = state.fs ∧
      Tracked idx least (state.sysRead slot task fd length).1 := by
  unfold FileKernel.sysRead
  split
  · rename_i inode offset writable found
    dsimp only
    split_ifs with bound nothing
    · exact ⟨rfl, tracked⟩
    · refine ⟨rfl, tracked_put tracked (placed_offset (tracked.placed slot task present) ?_)⟩
      intro inTable old entry
      obtain ⟨_, same⟩ := get_entry found
      rw [entry] at same
      injection same with sameInode sameOffset sameMode
      subst sameInode sameOffset
      obtain ⟨after, before⟩ := tracked.placed slot task present _ _ entry
      have taken := inode_read_length tracked.isUsed tracked.isFile old length
      change (state.fs.inodeRead ⟨idx.val, bound⟩ old length).length = _ at taken
      omega
    · exact ⟨rfl, tracked⟩
  · exact ⟨rfl, tracked⟩

/-- A `sys_write` that is not for the file. -/
theorem tracked_write_elsewhere (tracked : Tracked idx least state)
    (present : task ∈ state.tasks slot) {fd : Nat} (elsewhere : writableOffset task idx fd = none)
    (content : Bytes) :
    SameFileBytes idx state.fs (state.sysWrite slot task fd content).1.fs ∧
      Tracked idx least (state.sysWrite slot task fd content).1 := by
  unfold FileKernel.sysWrite
  split
  · rename_i inode offset writable found
    dsimp only
    split_ifs with readOnly bound nothing
    · exact ⟨same_bytes_refl _, tracked⟩
    · exact ⟨same_bytes_refl _, tracked⟩
    · have different : idx ≠ ⟨inode, bound⟩ := by
        rintro rfl
        unfold writableOffset at elsewhere
        rw [found] at elsewhere
        simp_all
      have same : SameFileBytes idx state.fs
          (state.fs.inodeWrite ⟨inode, bound⟩ offset content).1 :=
        same_bytes_of_eq (inode_write_other different offset content)
      have written := tracked_fs tracked same
      refine ⟨same, tracked_put written (placed_offset (written.placed slot task present) ?_)⟩
      intro inTable old entry
      obtain ⟨_, held⟩ := get_entry found
      rw [entry] at held
      injection held with sameInode
      exact absurd (Fin.ext sameInode) different
    · exact ⟨same_bytes_refl _, tracked⟩
  · exact ⟨same_bytes_refl _, tracked⟩

theorem placed_copy (tracked : Tracked idx least state) (present : task ∈ state.tasks slot)
    {fd : Nat} {entry : FdEntry} (found : FdTable.get task.fdTable fd = some entry) (offset : Nat)
    (copied : entry = .vfsFile idx.val offset true) :
    least ≤ offset ∧ offset ≤ (state.fs.inodes idx).size := by
  obtain ⟨bound, held⟩ := get_entry found
  exact tracked.placed slot task present _ offset (held.trans copied)

theorem tracked_dup (tracked : Tracked idx least state) (present : task ∈ state.tasks slot)
    (oldFd : Nat) : Tracked idx least (state.sysDup slot task oldFd) := by
  unfold FileKernel.sysDup
  split
  · rename_i entry found
    exact tracked_alloc tracked present _ (placed_copy tracked present found)
  · exact tracked

theorem tracked_dup2 (tracked : Tracked idx least state) (present : task ∈ state.tasks slot)
    (oldFd newFd : Nat) : Tracked idx least (state.sysDup2 slot task oldFd newFd) := by
  unfold FileKernel.sysDup2
  split
  · exact tracked
  · split
    · rename_i entry found
      split_ifs
      · refine tracked_put tracked (placed_update (tracked.placed slot task present) ?_)
        exact placed_copy tracked present found
      · exact tracked
    · exact tracked

theorem tracked_close (tracked : Tracked idx least state) (present : task ∈ state.tasks slot)
    (fd : Nat) : Tracked idx least (state.sysClose slot task fd) := by
  unfold FileKernel.sysClose
  split
  · rename_i closed table closes
    exact tracked_put tracked (placed_close (tracked.placed slot task present) closes)
  · exact tracked

theorem tracked_lseek (tracked : Tracked idx least state) (present : task ∈ state.tasks slot)
    {fd : Nat} (elsewhere : writableOffset task idx fd = none) (offset : Int) (whence : Nat) :
    (state.sysLseek slot task fd offset whence).fs = state.fs ∧
      Tracked idx least (state.sysLseek slot task fd offset whence) := by
  unfold FileKernel.sysLseek
  split
  · dsimp only
    split
    · split_ifs
      · exact ⟨rfl, tracked⟩
      · refine ⟨rfl, tracked_put tracked (placed_offset (tracked.placed slot task present) ?_)⟩
        intro bound old entry
        have stands := entry_writable_offset entry
        rw [elsewhere] at stands
        cases stands
    · exact ⟨rfl, tracked⟩
  · exact ⟨rfl, tracked⟩

theorem tracked_chdir (tracked : Tracked idx least state) (present : task ∈ state.tasks slot)
    (path : Bytes) : Tracked idx least (state.sysChdir slot task path) := by
  unfold FileKernel.sysChdir
  split_ifs
  · exact tracked
  · split
    · exact tracked_put tracked (tracked.placed slot task present)
    · exact tracked

theorem tracked_reap (tracked : Tracked idx least state) (slot : Slot) :
    Tracked idx least { state with tasks := Function.update state.tasks slot none } where
  isUsed := tracked.isUsed
  isFile := tracked.isFile
  grows := tracked.grows
  placed := by
    intro other found present
    by_cases here : other = slot
    · simp only [here, Function.update_self, Option.mem_def, reduceCtorEq] at present
    · simp only [Function.update_of_ne here] at present
      exact tracked.placed other found present

/-- A `sys_write` through a writable descriptor for the file. -/
theorem sys_write_stands {fd offset : Nat} (stands : writableOffset task idx fd = some offset)
    (content : Bytes) :
    (state.sysWrite slot task fd content).1 =
      if (state.fs.inodeWrite idx offset content).2 = 0 then state
      else (state.withFs (state.fs.inodeWrite idx offset content).1).putTask slot
        (task.withOffset fd (offset + (state.fs.inodeWrite idx offset content).2)) := by
  unfold writableOffset at stands
  split at stands
  · rename_i inode place found
    split_ifs at stands with same
    cases stands
    subst same
    unfold FileKernel.sysWrite
    rw [found]
    dsimp only
    rw [if_neg (by simp), dif_pos idx.isLt]
    split_ifs <;> rfl
  · cases stands

theorem quiet_step (tracked : Tracked idx least state) {action : FileAction}
    (appends : AppendsOnly idx state action) (quiet : acceptedWrite idx state action = none) :
    SameFileBytes idx state.fs (state.step action).1.fs ∧
      Tracked idx least (state.step action).1 := by
  have byTask : ∀ {slot : Slot} {call : TaskFiles → FileKernel × Option FileEvent},
      (∀ task ∈ state.tasks slot, SameFileBytes idx state.fs (call task).1.fs ∧
        Tracked idx least (call task).1) →
      SameFileBytes idx state.fs (state.byTask slot call).1.fs ∧
        Tracked idx least (state.byTask slot call).1 := by
    intro slot call calls
    unfold FileKernel.byTask
    cases present : state.tasks slot with
    | none => exact ⟨same_bytes_refl _, tracked⟩
    | some task => exact calls task present
  have keepsFs : ∀ {after : FileKernel}, after.fs = state.fs →
      SameFileBytes idx state.fs after.fs := fun same => by
    rw [same]
    exact same_bytes_refl _
  cases action with
  | sysOpen slot path flags =>
      apply byTask
      intro task present
      unfold FileKernel.sysOpen
      split_ifs
      · exact ⟨same_bytes_refl _, tracked⟩
      · exact tracked_open tracked present (appends task present)
  | sysOpenat slot dirfd path flags =>
      apply byTask
      intro task present
      unfold FileKernel.sysOpenat
      split_ifs
      · exact ⟨same_bytes_refl _, tracked⟩
      · exact tracked_open tracked present (appends task present)
  | sysRead slot fd length =>
      apply byTask
      intro task present
      obtain ⟨same, reads⟩ := tracked_read tracked present fd length
      exact ⟨keepsFs same, reads⟩
  | sysWrite slot fd content =>
      apply byTask
      intro task present
      cases stands : writableOffset task idx fd with
      | none => exact tracked_write_elsewhere tracked present stands content
      | some offset =>
          dsimp only [acceptedWrite] at quiet
          rw [present, Option.bind_some, stands, Option.bind_some] at quiet
          rw [sys_write_stands stands]
          split_ifs with nothing
          · exact ⟨same_bytes_refl _, tracked⟩
          · rw [if_neg nothing] at quiet
            cases quiet
  | sysLseek slot fd offset whence =>
      apply byTask
      intro task present
      obtain ⟨same, seeks⟩ := tracked_lseek tracked present (appends task present) offset whence
      exact ⟨keepsFs same, seeks⟩
  | sysClose slot fd =>
      apply byTask
      intro task present
      refine ⟨keepsFs ?_, tracked_close tracked present fd⟩
      unfold FileKernel.sysClose
      split <;> rfl
  | sysDup slot oldFd =>
      apply byTask
      intro task present
      refine ⟨keepsFs ?_, tracked_dup tracked present oldFd⟩
      unfold FileKernel.sysDup
      split
      · exact fd_alloc_fs _ _ _ _ _
      · rfl
  | sysDup2 slot oldFd newFd =>
      apply byTask
      intro task present
      refine ⟨keepsFs ?_, tracked_dup2 tracked present oldFd newFd⟩
      unfold FileKernel.sysDup2
      split
      · rfl
      · split
        · split_ifs <;> rfl
        · rfl
  | sysChdir slot path =>
      apply byTask
      intro task present
      refine ⟨keepsFs ?_, tracked_chdir tracked present path⟩
      unfold FileKernel.sysChdir
      split_ifs
      · rfl
      · split <;> rfl
  | allocOther slot entry =>
      apply byTask
      intro task present
      dsimp only
      split_ifs with isFileEntry
      · exact ⟨same_bytes_refl _, tracked⟩
      · refine ⟨keepsFs (fd_alloc_fs _ _ _ _ _), tracked_alloc tracked present _ ?_⟩
        rintro offset rfl
        exact absurd rfl isFileEntry
  | change operation => exact ⟨appends, tracked_fs tracked appends⟩
  | spawn slot =>
      refine ⟨same_bytes_refl _, tracked_put tracked ?_⟩
      intro fd offset entry
      unfold TaskFiles.new FdTable.new at entry
      dsimp only at entry
      split_ifs at entry
  | fork parent child =>
      apply byTask
      intro task present
      exact ⟨same_bytes_refl _, tracked_put tracked (tracked.placed parent task present)⟩
  | exit slot =>
      apply byTask
      intro task present
      exact ⟨same_bytes_refl _, tracked_put tracked nofun⟩
  | reap slot => exact ⟨same_bytes_refl _, tracked_reap tracked slot⟩

structure Holds (idx : InodeIndex) (before after : RamFs) (write : AcceptedWrite) : Prop where
  nonempty : write.bytes ≠ []
  used : (after.inodes idx).used = (before.inodes idx).used
  kind : (after.inodes idx).kind = (before.inodes idx).kind
  size : (after.inodes idx).size =
    max (before.inodes idx).size (write.offset + write.bytes.length)
  inside : ∀ k, k < write.bytes.length →
    some ((after.inodes idx).data (write.offset + k)) = write.bytes[k]?
  outside : ∀ i, i < write.offset ∨ write.offset + write.bytes.length ≤ i →
    (after.inodes idx).data i = (before.inodes idx).data i

theorem inode_write_holds {fs : RamFs} (isUsed : (fs.inodes idx).used = true)
    (isFile : (fs.inodes idx).kind = .file) {offset : Nat} {content : Bytes}
    (accepts : (fs.inodeWrite idx offset content).2 ≠ 0) :
    Holds idx fs (fs.inodeWrite idx offset content).1
      ⟨offset, content.take (fs.inodeWrite idx offset content).2⟩ := by
  have within := inode_write_count_le fs idx offset content
  rw [inode_write_file isUsed isFile] at accepts within ⊢
  dsimp only at accepts within ⊢
  generalize min ((offset + content.length) % 2 ^ 64) maxData = stop at *
  by_cases nothing : stop - offset = 0
  · rw [if_pos nothing] at accepts
    exact absurd rfl accepts
  · rw [if_neg nothing] at within ⊢
    dsimp only at within ⊢
    have length : (content.take (stop - offset)).length = stop - offset := by
      rw [List.length_take]
      omega
    refine ⟨?_, ?_, ?_, ?_, ?_, ?_⟩
    · intro empty
      dsimp only at empty
      rw [empty] at length
      exact nothing length.symm
    · rw [set_inode_same]
      rfl
    · rw [set_inode_same]
      rfl
    · rw [length, set_inode_same]
      dsimp only [written]
      omega
    · intro k near
      rw [length] at near
      have bound : k < content.length := by omega
      rw [set_inode_same, List.getElem?_take_of_lt near, List.getElem?_eq_getElem bound]
      dsimp only [written]
      rw [if_pos (by omega), Nat.add_sub_cancel_left, List.getD_eq_getElem?_getD,
        List.getElem?_eq_getElem bound, Option.getD_some]
    · intro i apart
      dsimp only at apart
      rw [length] at apart
      rw [set_inode_same]
      dsimp only [written]
      rw [if_neg (by omega)]

theorem tracked_holds {fs : RamFs} {write : AcceptedWrite} {fd next : Nat}
    (tracked : Tracked idx least state) (holds : Holds idx state.fs fs write)
    (present : task ∈ state.tasks slot) (after : least ≤ write.offset)
    (ends : next = write.offset + write.bytes.length) :
    Tracked idx least ((state.withFs fs).putTask slot (task.withOffset fd next)) := by
  have grown : (state.fs.inodes idx).size ≤ (fs.inodes idx).size := by
    rw [holds.size]
    exact le_max_left _ _
  have written : Tracked idx least (state.withFs fs) :=
    { isUsed := holds.used.trans tracked.isUsed
      isFile := holds.kind.trans tracked.isFile
      grows := le_trans tracked.grows grown
      placed := fun other found there => placed_mono (tracked.placed other found there) grown }
  refine tracked_put written (placed_offset (written.placed slot task present) ?_)
  intro _ _ _
  rw [show (state.withFs fs).fs = fs from rfl, holds.size, ends]
  exact ⟨le_trans after (Nat.le_add_right _ _), le_max_right _ _⟩

theorem loud_step (tracked : Tracked idx least state) {action : FileAction} {write : AcceptedWrite}
    (accepts : acceptedWrite idx state action = some write) :
    least ≤ write.offset ∧ write.offset ≤ (state.fs.inodes idx).size ∧
      Holds idx state.fs (state.step action).1.fs write ∧
      Tracked idx least (state.step action).1 := by
  cases action with
  | sysWrite slot fd content =>
      obtain ⟨task, present, accepts⟩ := Option.bind_eq_some_iff.mp accepts
      obtain ⟨offset, stands, accepts⟩ := Option.bind_eq_some_iff.mp accepts
      dsimp only at accepts
      split_ifs at accepts with nothing
      obtain rfl := Option.some.inj accepts
      obtain ⟨bound, entry⟩ := writable_offset_entry stands
      obtain ⟨after, before⟩ := tracked.placed slot task present _ offset entry
      have holds := inode_write_holds tracked.isUsed tracked.isFile nothing
      have within := inode_write_count_le state.fs idx offset content
      have stepped : (state.step (.sysWrite slot fd content)).1 =
          (state.withFs (state.fs.inodeWrite idx offset content).1).putTask slot
            (task.withOffset fd (offset + (state.fs.inodeWrite idx offset content).2)) := by
        dsimp only [FileKernel.step, FileKernel.byTask]
        rw [present]
        dsimp only
        rw [sys_write_stands stands, if_neg nothing]
      rw [stepped]
      exact ⟨after, before, holds, tracked_holds tracked holds present after (by simp [within])⟩
  | _ => cases accepts

end

section

variable {idx : InodeIndex} {least : Nat} {state : FileKernel}

theorem content_get (fs : RamFs) (idx : InodeIndex) (i : Nat) :
    (contentOf fs idx)[i]? =
      if i < (fs.inodes idx).size then some ((fs.inodes idx).data i) else none := by
  unfold contentOf
  rw [List.getElem?_map]
  split_ifs with inside
  · rw [List.getElem?_range inside]
    rfl
  · rw [List.getElem?_eq_none (by simpa using inside)]
    rfl

theorem accepts_none_iff {fs : RamFs} (isUsed : (fs.inodes idx).used = true)
    (isFile : (fs.inodes idx).kind = .file) {offset : Nat} {content : Bytes}
    (short : content.length < 2 ^ 63) :
    (fs.inodeWrite idx offset content).2 = 0 ↔ content = [] ∨ maxData ≤ offset := by
  rw [inode_write_file isUsed isFile, ← List.length_eq_zero_iff]
  dsimp only
  by_cases nothing : min ((offset + content.length) % 2 ^ 64) maxData - offset = 0
  · rw [if_pos nothing]
    refine iff_of_true rfl ?_
    unfold maxData at nothing ⊢
    omega
  · rw [if_neg nothing]
    refine iff_of_false nothing ?_
    unfold maxData at nothing ⊢
    omega

theorem at_end_of_quiet (tracked : Tracked idx least state) {action : FileAction}
    (appends : AppendsOnly idx state action) (quiet : acceptedWrite idx state action = none) :
    WritesAtEnd idx state action := by
  cases action with
  | sysWrite slot fd content =>
      intro task present offset stands
      dsimp only [acceptedWrite] at quiet
      rw [Option.mem_def] at present stands
      rw [present, Option.bind_some, stands, Option.bind_some] at quiet
      split_ifs at quiet with nothing
      exact .inr ((accepts_none_iff tracked.isUsed tracked.isFile appends).mp nothing)
  | _ => exact trivial

theorem at_end_of_loud (tracked : Tracked idx least state) {action : FileAction}
    {write : AcceptedWrite} (appends : AppendsOnly idx state action)
    (accepts : acceptedWrite idx state action = some write) :
    WritesAtEnd idx state action ↔ write.offset = (state.fs.inodes idx).size := by
  cases action with
  | sysWrite slot fd content =>
      obtain ⟨task, present, accepts⟩ := Option.bind_eq_some_iff.mp accepts
      obtain ⟨offset, stands, accepts⟩ := Option.bind_eq_some_iff.mp accepts
      dsimp only at accepts
      split_ifs at accepts with nothing
      obtain rfl := Option.some.inj accepts
      rw [accepts_none_iff tracked.isUsed tracked.isFile appends] at nothing
      dsimp only [WritesAtEnd]
      constructor
      · intro meets
        exact (meets task present offset stands).resolve_right nothing
      · intro atEnd other found place there
        obtain rfl := Option.mem_unique present found
        obtain rfl := Option.mem_unique stands there
        exact .inl atEnd
  | _ => cases accepts

/-- The file while every write has been made at its end: the writes are intact, lie
in the file, and have written every byte since the start of the run. -/
structure Recorded (idx : InodeIndex) (least : Nat) (fs : RamFs) (writes : List AcceptedWrite) :
    Prop where
  intact : Intact fs idx writes
  ends : ∀ write ∈ writes, write.offset + write.bytes.length ≤ (fs.inodes idx).size
  covers : ∀ position, least ≤ position → position < (fs.inodes idx).size →
    ∃ write ∈ writes, write.offset ≤ position ∧ position < write.offset + write.bytes.length

theorem recorded_same {before after : RamFs} {writes : List AcceptedWrite}
    (recorded : Recorded idx least before writes) (same : SameFileBytes idx before after) :
    Recorded idx least after writes := by
  obtain ⟨⟨apart, present⟩, ends, covers⟩ := recorded
  unfold contentOf at present
  rw [← same.size, ← same.data] at present
  rw [← same.size] at ends covers
  exact ⟨⟨apart, present⟩, ends, covers⟩

theorem recorded_append {before after : RamFs} {writes : List AcceptedWrite}
    {write : AcceptedWrite} (recorded : Recorded idx least before writes)
    (holds : Holds idx before after write) (atEnd : write.offset = (before.inodes idx).size) :
    Recorded idx least after (writes ++ [write]) := by
  obtain ⟨⟨apart, present⟩, ends, covers⟩ := recorded
  have size : (after.inodes idx).size = (before.inodes idx).size + write.bytes.length := by
    rw [holds.size, atEnd]
    omega
  refine ⟨⟨?_, ?_⟩, ?_, ?_⟩
  · refine List.pairwise_append.mpr ⟨apart, List.pairwise_singleton _ _, ?_⟩
    intro earlier isOld last isLast
    rw [List.mem_singleton.mp isLast]
    left
    rw [atEnd]
    exact ends earlier isOld
  · intro other member k near
    rcases List.mem_append.mp member with isOld | isNew
    · have old := ends other isOld
      rw [← present other isOld k near, content_get, content_get, if_pos (by omega),
        if_pos (by omega), holds.outside _ (.inl (by omega))]
    · obtain rfl := List.mem_singleton.mp isNew
      rw [content_get, if_pos (by omega)]
      exact holds.inside k near
  · intro other member
    rcases List.mem_append.mp member with isOld | isNew
    · have old := ends other isOld
      omega
    · rw [List.mem_singleton.mp isNew]
      omega
  · intro position start inside
    by_cases old : position < (before.inodes idx).size
    · obtain ⟨earlier, member, bounds⟩ := covers position start old
      exact ⟨earlier, List.mem_append_left _ member, bounds⟩
    · refine ⟨write, List.mem_append_right _ (List.mem_singleton_self write), ?_⟩
      omega

theorem run_intact_iff {start : FileKernel} {writes : List AcceptedWrite}
    {actions : List FileAction} (tracked : Tracked idx least state)
    (recorded : Recorded idx least state.fs writes)
    (appends : (appendSystem idx start).StepsMeet (AppendsOnly idx) state actions) :
    Intact ((appendSystem idx start).runFrom state actions).fs idx
        (writes ++ (appendSystem idx start).traceFrom state actions) ↔
      (appendSystem idx start).StepsMeet (WritesAtEnd idx) state actions := by
  induction actions generalizing state writes with
  | nil =>
      simp only [EventSystem.traceFrom, EventSystem.runFrom, EventSystem.StepsMeet,
        List.append_nil, iff_true]
      exact recorded.intact
  | cons action rest ih =>
      obtain ⟨appending, later⟩ := appends
      simp only [EventSystem.traceFrom, EventSystem.runFrom, EventSystem.StepsMeet]
      rw [show ((appendSystem idx start).step state action).1 = (state.step action).1 from rfl]
      cases accepts : acceptedWrite idx state action with
      | none =>
          obtain ⟨same, next⟩ := quiet_step tracked appending accepts
          have nothing : ((appendSystem idx start).step state action).2 = none := accepts
          rw [nothing, Option.toList_none, List.nil_append,
            ih next (recorded_same recorded same) later]
          exact (and_iff_right (at_end_of_quiet tracked appending accepts)).symm
      | some write =>
          obtain ⟨after, before, holds, next⟩ := loud_step tracked accepts
          have emitted : ((appendSystem idx start).step state action).2 = some write := accepts
          rw [emitted, Option.toList_some, at_end_of_loud tracked appending accepts]
          by_cases atEnd : write.offset = (state.fs.inodes idx).size
          · rw [and_iff_right atEnd, ← ih next (recorded_append recorded holds atEnd) later,
              List.append_assoc]
          · refine iff_of_false ?_ fun both => atEnd both.1
            intro whole
            -- The byte at its offset has been written before.
            have overwrites := lt_of_le_of_ne before atEnd
            obtain ⟨earlier, member, starts, ends⟩ :=
              recorded.covers write.offset after overwrites
            have apart := (List.pairwise_append.mp whole.apart).2.2 earlier member write
              (List.mem_append_left _ (List.mem_singleton_self write))
            have nonempty := List.length_pos_iff.mpr holds.nonempty
            unfold Apart at apart
            omega

end

/-- For every file, every state in which the writable descriptors of the file stand at
its end, and every run that opens it for writing with `O_APPEND` only. -/
theorem appends_intact_iff (idx : InodeIndex) (state : FileKernel) (actions : List FileAction)
    (fresh : Fresh idx state)
    (appends : (appendSystem idx state).StepsMeet (AppendsOnly idx) state actions) :
    Intact ((appendSystem idx state).runFrom state actions).fs idx
        ((appendSystem idx state).traceFrom state actions) ↔
      (appendSystem idx state).StepsMeet (WritesAtEnd idx) state actions := by
  have tracked : Tracked idx (state.fs.inodes idx).size state := by
    refine ⟨fresh.isUsed, fresh.isFile, le_rfl, ?_⟩
    intro slot task present fd offset entry
    rw [fresh.atEnd slot task present fd offset (entry_writable_offset entry)]
    exact ⟨le_rfl, le_rfl⟩
  refine run_intact_iff tracked ⟨⟨.nil, nofun⟩, nofun, ?_⟩ appends
  intro position start inside
  omega

/-- `O_WRONLY | O_APPEND`. -/
def openMotd : FileAction := .sysOpen firstSlot motdPath 0x401

theorem fresh_motd : Fresh motdInode oneTask where
  isUsed := by decide +kernel
  isFile := by decide +kernel
  atEnd := by
    intro slot task present fd offset stands
    obtain rfl : TaskFiles.new = task := by
      simp only [oneTask, Option.mem_def] at present
      split_ifs at present
      exact Option.some.inj present
    obtain ⟨_, entry⟩ := writable_offset_entry stands
    unfold TaskFiles.new FdTable.new at entry
    dsimp only at entry
    split_ifs at entry

theorem short_byte (byte : UInt8) : [byte].length < 2 ^ 63 := Nat.one_lt_two_pow (by decide)

/-- The second descriptor is opened after the first has written. -/
theorem later_open_intact :
    let actions := [openMotd, .sysWrite firstSlot 3 [0x41], openMotd, .sysWrite firstSlot 4 [0x42]]
    Intact ((appendSystem motdInode oneTask).runFrom oneTask actions).fs motdInode
        ((appendSystem motdInode oneTask).traceFrom oneTask actions) ∧
      (appendSystem motdInode oneTask).traceFrom oneTask actions = [⟨21, [0x41]⟩, ⟨22, [0x42]⟩] := by
  refine ⟨(appends_intact_iff motdInode oneTask _ fresh_motd ?_).mpr ?_, by decide +kernel⟩
  · exact ⟨fun _ _ _ => rfl, short_byte _, fun _ _ _ => rfl, short_byte _, trivial⟩
  · refine ⟨trivial, ?_, trivial, ?_, trivial⟩
    · unfold WritesAtEnd
      decide +kernel
    · unfold WritesAtEnd
      decide +kernel

/-- Both descriptors are opened before one of them writes: the second byte takes the
place of the first. -/
theorem earlier_open_overwritten :
    let actions := [openMotd, openMotd, .sysWrite firstSlot 3 [0x41], .sysWrite firstSlot 4 [0x42]]
    (appendSystem motdInode oneTask).StepsMeet (AppendsOnly motdInode) oneTask actions ∧
      (appendSystem motdInode oneTask).traceFrom oneTask actions =
        [⟨21, [0x41]⟩, ⟨21, [0x42]⟩] ∧
      ¬Intact ((appendSystem motdInode oneTask).runFrom oneTask actions).fs motdInode
        ((appendSystem motdInode oneTask).traceFrom oneTask actions) := by
  have writes : (appendSystem motdInode oneTask).traceFrom oneTask
      [openMotd, openMotd, .sysWrite firstSlot 3 [0x41], .sysWrite firstSlot 4 [0x42]] =
        [⟨21, [0x41]⟩, ⟨21, [0x42]⟩] := by
    decide +kernel
  refine ⟨⟨fun _ _ _ => rfl, fun _ _ _ => rfl, short_byte _, short_byte _, trivial⟩, writes, ?_⟩
  rw [writes]
  rintro ⟨apart, _⟩
  revert apart
  decide

end Ferrugem.AppendingWrites
