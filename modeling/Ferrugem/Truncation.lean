import Ferrugem.DescriptorIdentity

/-!
# Opening with `O_TRUNC`

`sys_open` truncates with an `inode_write` of no bytes, which changes nothing.
A file that was empty stays empty and then holds exactly what is written through
the new descriptor; any other file keeps its size.
-/

namespace Ferrugem.Truncation

open Ferrugem.ProcessModel Ferrugem.SchedulerModel Ferrugem.RamFsModel
open Ferrugem.FileSyscalls Ferrugem.DescriptorIdentity

set_option autoImplicit false

def contentOf (fs : RamFs) (idx : InodeIndex) : Bytes :=
  (List.range (fs.inodes idx).size).map (fs.inodes idx).data

/-- What `sys_write` on a file returns. -/
def writtenCount (state : FileKernel) (task : TaskFiles) (fd : Nat) (content : Bytes) : Nat :=
  match FdTable.get task.fdTable fd with
  | some (.vfsFile inode offset writable) =>
      if !writable then 0
      else if bound : inode < maxInodes then
        (state.fs.inodeWrite ⟨inode, bound⟩ offset content).2
      else 0
  | _ => 0

def accepted (state : FileKernel) (slot : Slot) (fd : Nat) (content : Bytes) : Bytes :=
  match state.tasks slot with
  | some task => content.take (writtenCount state task fd content)
  | none => []

/-- A sequence of `sys_write` calls through one descriptor, with all the bytes
that were accepted. -/
def writeAll (slot : Slot) (fd : Nat) : FileKernel → List Bytes → FileKernel × Bytes
  | state, [] => (state, [])
  | state, content :: rest =>
      let later := writeAll slot fd (state.step (.sysWrite slot fd content)).1 rest
      (later.1, accepted state slot fd content ++ later.2)

inductive OpenCall where
  | sysOpen (path : Bytes) (flags : Nat)
  | sysOpenat (dirfd : Int) (path : Bytes) (flags : Nat)

namespace OpenCall

def path : OpenCall → Bytes
  | .sysOpen path _ => path
  | .sysOpenat _ path _ => path

def flags : OpenCall → Nat
  | .sysOpen _ flags => flags
  | .sysOpenat _ _ flags => flags

def cwd (task : TaskFiles) : OpenCall → InodeIndex
  | .sysOpen _ _ => task.cwd
  | .sysOpenat dirfd _ _ => task.atCwd dirfd

def perform (state : FileKernel) (slot : Slot) (task : TaskFiles) : OpenCall → FileKernel × Int
  | .sysOpen path flags => state.sysOpen slot task path flags
  | .sysOpenat dirfd path flags => state.sysOpenat slot task dirfd path flags

/-- `O_TRUNC` with a writable access mode. -/
def truncates (call : OpenCall) : Bool :=
  call.flags.testBit 9 && (call.flags.testBit 0 || call.flags.testBit 1)

end OpenCall

/-- The result is a descriptor for the file `idx`. -/
def OpensFile (result : FileKernel × Int) (slot : Slot) (fd : Nat) (idx : InodeIndex) : Prop :=
  result.2 = fd ∧ ∃ task offset writable, result.1.tasks slot = some task ∧
    FdTable.get task.fdTable fd = some (.vfsFile idx.val offset writable)

/-- The opened file is empty, and then holds what is written to it. -/
def Truncates (state : FileKernel) (slot : Slot) (task : TaskFiles) (call : OpenCall) : Prop :=
  ∀ fd idx, OpensFile (call.perform state slot task) slot fd idx →
    ((call.perform state slot task).1.fs.inodes idx).size = 0 ∧
      ∀ contents, contentOf (writeAll slot fd (call.perform state slot task).1 contents).1.fs idx =
        (writeAll slot fd (call.perform state slot task).1 contents).2

/-- The filesystem once `O_CREAT` has created a missing file. -/
def createdFs (state : FileKernel) (task : TaskFiles) (call : OpenCall) : RamFs :=
  if call.flags.testBit 6 then (state.fs.touch call.path (call.cwd task) 0 0).1 else state.fs

/-- The call opens no file, or the file it opens was empty. -/
def WasEmpty (state : FileKernel) (task : TaskFiles) (call : OpenCall) : Prop :=
  call.path = [] ∨ (openDevPath call.path).isSome ∨ FdTable.freeFd task.fdTable = none ∨
    ∀ idx, (createdFs state task call).openCheck call.path (call.cwd task) 0 0 true = some idx →
      ((createdFs state task call).inodes idx).size = 0

theorem range_get_take {content : Bytes} {n : Nat} (short : n ≤ content.length) :
    (List.range n).map (fun j => content.getD j 0) = content.take n := by
  apply List.ext_getElem
  · simp [short]
  · intro j left right
    have inside : j < content.length := by
      simp only [List.length_map, List.length_range] at left
      omega
    simp [List.getElem?_eq_getElem inside]

/-- An `inode_write` of no bytes changes nothing. -/
theorem inode_write_nothing (fs : RamFs) (idx : InodeIndex) :
    (fs.inodeWrite idx 0 []).1 = fs := by
  unfold RamFs.inodeWrite
  simp

theorem inode_write_appends {fs : RamFs} {idx : InodeIndex} {bytes : Bytes} (content : Bytes)
    (size : (fs.inodes idx).size = bytes.length) (held : contentOf fs idx = bytes) :
    ((fs.inodeWrite idx bytes.length content).1.inodes idx).size =
        (bytes ++ content.take (fs.inodeWrite idx bytes.length content).2).length ∧
      contentOf (fs.inodeWrite idx bytes.length content).1 idx =
        bytes ++ content.take (fs.inodeWrite idx bytes.length content).2 := by
  have fits : (bytes.length + content.length) % 2 ^ 64 ≤ bytes.length + content.length :=
    Nat.mod_le _ _
  unfold RamFs.inodeWrite
  dsimp only
  split_ifs with refused nothing
  · simp [size, held]
  · simp [size, held]
  · generalize stops : min ((bytes.length + content.length) % 2 ^ 64) maxData = stop at *
    have short : stop - bytes.length ≤ content.length := by omega
    have whole : List.range stop = List.range bytes.length ++
        (List.range (stop - bytes.length)).map (bytes.length + ·) := by
      rw [← List.range_add]
      congr 1
      omega
    have grown : (bytes ++ content.take (stop - bytes.length)).length = stop := by
      rw [List.length_append, List.length_take]
      omega
    rw [grown]
    constructor
    · rw [set_inode_same]
      dsimp only
      omega
    · unfold contentOf at held ⊢
      rw [set_inode_same]
      dsimp only
      rw [size, max_eq_right (by omega : bytes.length ≤ stop), whole, List.map_append,
        List.map_map]
      congr 1
      · rw [size] at held
        refine Eq.trans (List.map_congr_left ?_) held
        intro i inside
        rw [List.mem_range] at inside
        rw [if_neg (by omega)]
      · rw [← range_get_take short]
        apply List.map_congr_left
        intro j inside
        rw [List.mem_range] at inside
        dsimp only [Function.comp]
        rw [if_pos (by omega), Nat.add_sub_cancel_left]

theorem inode_write_count_le (fs : RamFs) (idx : InodeIndex) (offset : Nat) (content : Bytes) :
    (fs.inodeWrite idx offset content).2 ≤ content.length := by
  have fits : (offset + content.length) % 2 ^ 64 ≤ offset + content.length := Nat.mod_le _ _
  unfold RamFs.inodeWrite
  dsimp only
  split_ifs
  · exact Nat.zero_le _
  · exact Nat.zero_le _
  · dsimp only
    omega

theorem get_with_offset {task : TaskFiles} {fd inode offset : Nat} {writable : Bool} (next : Nat)
    (found : FdTable.get task.fdTable fd = some (.vfsFile inode offset writable)) :
    FdTable.get (task.withOffset fd next).fdTable fd = some (.vfsFile inode next writable) := by
  obtain ⟨bound, entry⟩ := get_entry found
  unfold TaskFiles.withOffset setOffset FdTable.get
  simp only [bound, entry, dif_pos, Function.update_self]

structure AtEnd (state : FileKernel) (slot : Slot) (fd : Nat) (idx : InodeIndex)
    (bytes : Bytes) : Prop where
  descriptor : ∃ task, state.tasks slot = some task ∧
    FdTable.get task.fdTable fd = some (.vfsFile idx.val bytes.length true)
  size : (state.fs.inodes idx).size = bytes.length
  held : contentOf state.fs idx = bytes

variable {state : FileKernel} {slot : Slot} {fd : Nat} {idx : InodeIndex} {bytes : Bytes}

theorem at_end_write (atEnd : AtEnd state slot fd idx bytes) (content : Bytes) :
    AtEnd (state.step (.sysWrite slot fd content)).1 slot fd idx
      (bytes ++ accepted state slot fd content) := by
  obtain ⟨⟨task, present, found⟩, size, held⟩ := atEnd
  have took : accepted state slot fd content =
      content.take (state.fs.inodeWrite idx bytes.length content).2 := by
    unfold accepted writtenCount
    simp [present, found]
  have appended := inode_write_appends content size held
  rw [took]
  unfold FileKernel.step FileKernel.byTask
  dsimp only
  rw [present]
  dsimp only
  unfold FileKernel.sysWrite
  rw [found]
  dsimp only
  rw [if_neg (by simp), dif_pos idx.isLt]
  split_ifs with nothing
  · have none : (state.fs.inodeWrite idx bytes.length content).2 = 0 := nothing
    rw [none, List.take_zero, List.append_nil]
    exact ⟨⟨task, present, found⟩, size, held⟩
  · refine ⟨⟨_, Function.update_self _ _ _, ?_⟩, appended.1, appended.2⟩
    have grown : (bytes ++ content.take (state.fs.inodeWrite idx bytes.length content).2).length =
        bytes.length + (state.fs.inodeWrite idx bytes.length content).2 := by
      rw [List.length_append, List.length_take,
        min_eq_left (inode_write_count_le state.fs idx bytes.length content)]
    rw [grown]
    exact get_with_offset _ found

theorem at_end_write_all (atEnd : AtEnd state slot fd idx bytes) (contents : List Bytes) :
    AtEnd (writeAll slot fd state contents).1 slot fd idx
      (bytes ++ (writeAll slot fd state contents).2) := by
  induction contents generalizing state bytes with
  | nil =>
      unfold writeAll
      rw [List.append_nil]
      exact atEnd
  | cons content rest ih =>
      have later := ih (at_end_write atEnd content)
      rw [List.append_assoc] at later
      exact later

theorem get_alloc {table after : FdTable} {entry : FdEntry} {fd : Fd}
    (allocated : FdTable.alloc table entry = some (fd, after)) (filled : entry ≠ .empty) :
    FdTable.get after fd.val = some entry := by
  unfold FdTable.alloc at allocated
  obtain ⟨found, _, pair⟩ := Option.map_eq_some_iff.mp allocated
  simp only [Prod.mk.injEq] at pair
  obtain ⟨rfl, rfl⟩ := pair
  unfold FdTable.get
  rw [dif_pos found.isLt, Function.update_self]
  cases entry <;> first | rfl | exact absurd rfl filled

theorem opens_file_alloc {task : TaskFiles} {entry : FdEntry} {generation : Nat}
    (filled : entry ≠ .empty)
    (opens : OpensFile (state.fdAlloc slot task entry generation) slot fd idx) :
    FdTable.freeFd task.fdTable ≠ none ∧
      (∃ offset writable, entry = .vfsFile idx.val offset writable) ∧
      ∃ later, (state.fdAlloc slot task entry generation).1.tasks slot = some later ∧
        FdTable.get later.fdTable fd = some entry := by
  obtain ⟨result, later, offset, writable, present, found⟩ := opens
  have stays := present
  unfold FileKernel.fdAlloc at result present
  cases allocated : FdTable.alloc task.fdTable entry with
  | none =>
      rw [allocated] at result
      dsimp only at result
      omega
  | some opened =>
      obtain ⟨other, table⟩ := opened
      rw [allocated] at result present
      dsimp only [FileKernel.putTask] at result present
      rw [Function.update_self] at present
      cases present
      obtain rfl : other.val = fd := by omega
      have same := get_alloc allocated filled
      dsimp only at found
      rw [same] at found
      refine ⟨?_, ⟨offset, writable, Option.some.inj found⟩, _, stays, same⟩
      intro full
      unfold FdTable.alloc at allocated
      rw [full] at allocated
      cases allocated

theorem perform_eq (state : FileKernel) (slot : Slot) (task : TaskFiles) (call : OpenCall) :
    call.perform state slot task =
      if call.path = [] then (state, -2)
      else state.openFrom slot task (call.cwd task) call.path call.flags := by
  cases call <;> rfl

inductive OpenCase (state : FileKernel) (slot : Slot) (task : TaskFiles) (call : OpenCall) :
    FileKernel × Int → Prop where
  | fails {after : FileKernel}
      (missing : call.path = [] ∨ (openDevPath call.path).isNone ∧
        (createdFs state task call).openCheck call.path (call.cwd task) 0 0 true = none) :
      OpenCase state slot task call (after, -2)
  | device {entry : FdEntry} (known : openDevPath call.path = some entry) :
      OpenCase state slot task call (state.fdAlloc slot task entry 0)
  | file {final : FileKernel} {idx : InodeIndex} {offset generation : Nat}
      (named : call.path ≠ []) (regular : openDevPath call.path = none)
      (checked : (createdFs state task call).openCheck call.path (call.cwd task) 0 0 true =
        some idx)
      (kept : final.fs = createdFs state task call)
      (place : offset = 0 ∨ offset = inodeSize (createdFs state task call) idx) :
      OpenCase state slot task call
        (final.fdAlloc slot task (.vfsFile idx.val offset true) generation)

theorem open_case (state : FileKernel) (slot : Slot) (task : TaskFiles) {call : OpenCall}
    (truncates : call.truncates = true) :
    OpenCase state slot task call (call.perform state slot task) := by
  unfold OpenCall.truncates at truncates
  rw [Bool.and_eq_true] at truncates
  obtain ⟨truncate, writable⟩ := truncates
  rw [perform_eq]
  split_ifs with empty
  · exact .fails (.inl empty)
  unfold FileKernel.openFrom
  cases known : openDevPath call.path with
  | some entry => exact .device known
  | none =>
      dsimp only
      rw [writable, truncate]
      have created : (if call.flags.testBit 6 then
          state.withFs (state.fs.touch call.path (call.cwd task) 0 0).1 else state).fs =
            createdFs state task call := by
        unfold createdFs
        split_ifs <;> rfl
      generalize (if call.flags.testBit 6 then
        state.withFs (state.fs.touch call.path (call.cwd task) 0 0).1 else state) = touched at *
      rw [created]
      cases checked : (createdFs state task call).openCheck call.path (call.cwd task) 0 0 true with
      | none =>
          rw [if_pos rfl]
          exact .fails (.inr ⟨by simp [known], checked⟩)
      | some idx =>
          dsimp only
          rw [if_pos (by simp), inode_write_nothing]
          refine .file empty known checked rfl ?_
          split_ifs
          · exact .inr rfl
          · exact .inl rfl

theorem file_opened {task : TaskFiles} {offset generation : Nat}
    (free : FdTable.freeFd task.fdTable ≠ none) :
    ∃ fd, OpensFile (state.fdAlloc slot task (.vfsFile idx.val offset true) generation) slot fd
      idx := by
  obtain ⟨fd, found⟩ := Option.ne_none_iff_exists'.mp free
  have allocated : FdTable.alloc task.fdTable (.vfsFile idx.val offset true) =
      some (fd, Function.update task.fdTable fd (.vfsFile idx.val offset true)) := by
    unfold FdTable.alloc
    rw [found]
    rfl
  refine ⟨fd.val, ?_⟩
  unfold FileKernel.fdAlloc
  rw [allocated]
  exact ⟨rfl, _, offset, true, Function.update_self _ _ _, get_alloc allocated nofun⟩

theorem fd_alloc_fs (state : FileKernel) (slot : Slot) (task : TaskFiles) (entry : FdEntry)
    (generation : Nat) : (state.fdAlloc slot task entry generation).1.fs = state.fs := by
  unfold FileKernel.fdAlloc
  split <;> rfl

theorem device_not_file {path : Bytes} {entry : FdEntry} (known : openDevPath path = some entry) :
    entry ≠ .empty ∧ ∀ inode offset writable, entry ≠ .vfsFile inode offset writable := by
  unfold openDevPath at known
  split_ifs at known <;> cases known <;> exact ⟨nofun, nofun⟩

/-- A truncating open empties the file exactly when it was empty before. -/
theorem truncates_iff (state : FileKernel) (slot : Slot) (task : TaskFiles) (call : OpenCall)
    (truncating : call.truncates = true) :
    Truncates state slot task call ↔ WasEmpty state task call := by
  unfold Truncates
  generalize result : call.perform state slot task = performed
  have ended := open_case state slot task truncating
  rw [result] at ended
  cases ended with
  | fails missing =>
      apply iff_of_true
      · rintro fd idx ⟨code, _⟩
        dsimp only at code
        omega
      · rcases missing with empty | ⟨_, none⟩
        · exact .inl empty
        · refine .inr (.inr (.inr ?_))
          rw [none]
          nofun
  | device known =>
      obtain ⟨filled, special⟩ := device_not_file known
      apply iff_of_true
      · intro fd idx opens
        obtain ⟨_, ⟨offset, writable, same⟩, _⟩ := opens_file_alloc filled opens
        exact absurd same (special _ _ _)
      · exact .inr (.inl (by simp [known]))
  | @file final idx offset generation named regular checked kept place =>
      constructor
      · intro truncates
        by_cases full : FdTable.freeFd task.fdTable = none
        · exact .inr (.inr (.inl full))
        · refine .inr (.inr (.inr ?_))
          intro found same
          rw [checked] at same
          cases same
          obtain ⟨fd, opens⟩ := @file_opened final slot idx task offset generation full
          have size := (truncates fd idx opens).1
          rw [fd_alloc_fs, kept] at size
          exact size
      · intro wasEmpty fd found opens
        have filled : FdEntry.vfsFile idx.val offset true ≠ .empty := nofun
        obtain ⟨free, ⟨position, writable, same⟩, later, present, entry⟩ :=
          opens_file_alloc filled opens
        obtain rfl : idx = found := Fin.ext (FdEntry.vfsFile.inj same).1
        have size : ((createdFs state task call).inodes idx).size = 0 := by
          rcases wasEmpty with empty | device | full | empty
          · exact absurd empty named
          · rw [regular] at device
            cases device
          · exact absurd full free
          · exact empty idx checked
        have atStart : offset = 0 := by
          rcases place with zero | atSize
          · exact zero
          · rw [atSize]
            unfold inodeSize
            split_ifs
            · exact size
            · rfl
        rw [← kept, ← fd_alloc_fs final slot task (.vfsFile idx.val offset true) generation] at size
        have atEnd : AtEnd (final.fdAlloc slot task (.vfsFile idx.val offset true) generation).1
            slot fd idx [] := by
          refine ⟨⟨later, present, ?_⟩, size, ?_⟩
          · rw [entry, atStart]
            rfl
          · unfold contentOf
            rw [size]
            rfl
        refine ⟨size, ?_⟩
        intro contents
        exact (at_end_write_all atEnd contents).held

/-- The filesystem at boot, with a task at its root in slot 1. -/
def oneTask : FileKernel where
  fs := RamFs.init []
  tasks := fun slot => if slot = firstSlot then some TaskFiles.new else none
  generation := fun _ => 0

def notePath : Bytes := ascii ['/', 'n', 'o', 't', 'e']

/-- `O_WRONLY | O_CREAT | O_TRUNC`. -/
def openNote : OpenCall := .sysOpen notePath 0x241

/-- The same task after it wrote two bytes to the note and closed it. -/
def noteWritten : FileKernel :=
  (((oneTask.step (.sysOpen firstSlot notePath 0x241)).1.step
    (.sysWrite firstSlot 3 [0x41, 0x42])).1.step (.sysClose firstSlot 3)).1

theorem new_note_truncated : Truncates oneTask ⟨1, by decide⟩ TaskFiles.new openNote :=
  (truncates_iff oneTask ⟨1, by decide⟩ TaskFiles.new openNote (by decide)).mpr
    (.inr (.inr (.inr (by decide +kernel))))

/-- Opening the note again with `O_TRUNC` leaves its two bytes. -/
theorem note_not_truncated :
    ∃ task, noteWritten.tasks ⟨1, by decide⟩ = some task ∧ openNote.truncates = true ∧
      ¬Truncates noteWritten ⟨1, by decide⟩ task openNote := by
  refine ⟨(noteWritten.tasks ⟨1, by decide⟩).get (by decide +kernel), by simp, by decide, ?_⟩
  intro truncates
  have size := (truncates 3 ⟨8, by decide⟩ ?_).1
  · revert size
    decide +kernel
  · exact ⟨by decide +kernel, _, 0, true, rfl, by decide +kernel⟩

end Ferrugem.Truncation
